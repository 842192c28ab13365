import OperatingSystems.Concurrency.Fifo
import OperatingSystems.Concurrency.Rousing

namespace OperatingSystems.Concurrency
open Channel Transition

variable {τ χ α : Type}

def Channel.Ready (ch : Channel τ α) (d : Dir) : Prop := ch.closedFlag = true ∨ ¬ ch.stuck d

def Pc.enlisted (i : Nat) : Pc χ → Prop
  | .register j => i < j
  | .enter _ o => o.mode = .select
  | .publish o => o.mode = .select
  | .semWait => True
  | _ => False

def Pc.passed (i : Nat) : Pc χ → Prop
  | .enter _ o => o.mode = .select ∧ i < o.index
  | .publish o => o.mode = .select ∧ i < o.index
  | .semWait => True
  | _ => False

def Pc.notifying (c : χ) (d : Dir) : Pc χ → Prop
  | .notify o => o.chan = c ∧ o.dir.flip = d
  | .closeNotify .recv c' => c' = c
  | .closeNotify .send c' => c' = c ∧ d = .send
  | _ => False

-- the thread has changed a channel and has to call `notify_select_*`
def Pc.notifies : Pc χ → Bool
  | .notify _ => true
  | .closeNotify _ _ => true
  | _ => false

theorem notifying_notifies {pc : Pc χ} {c : χ} {d : Dir} (h : pc.notifying c d) : pc.notifies = true := by
  cases pc with
  | notify o => rfl
  | closeNotify d c => rfl
  | _ => exact h.elim

theorem passed_enlisted {i : Nat} {pc : Pc χ} (h : pc.passed i) : pc.enlisted i := by
  cases pc with
  | enter p o => exact h.1
  | publish o => exact h.1
  | semWait => trivial
  | _ => exact h.elim

theorem stuck_congr {ch ch' : Channel τ α} (h : ch'.buffer = ch.buffer) (d : Dir) :
    ch'.stuck d ↔ ch.stuck d := by
  cases d <;> simp [stuck, h]

theorem scanAt_passed {s : State τ χ α} {t : τ} {i j : Nat} {e : Entry χ α}
    (h : (s.scanAt t i).passed j) (he : (s.entries t)[j]? = some e) : j < i := by
  unfold State.scanAt at h
  split at h
  · exact h.2
  · rename_i hnone
    have hlen := List.getElem?_eq_none_iff.mp hnone
    obtain ⟨hj, -⟩ := List.getElem?_eq_some_iff.mp he
    omega

theorem leave_enlisted (o : Op χ) (st : Status) (i : Nat) : ¬ (o.leave st).enlisted i := by
  rcases leave_cases o st with ⟨-, h⟩ | ⟨-, h⟩ <;> simp [h, Pc.enlisted]

theorem next_enlisted {s : State τ χ α} {t : τ} {o : Op χ} {m : Move α} {i : Nat}
    (h : (o.next (s.refused t o) m).enlisted i) : o.mode = .select := by
  cases m with
  | refuse =>
    cases hm : o.mode with
    | select => rfl
    | blocking | nonblocking =>
      simp only [Op.next, State.refused, hm] at h
      exact h.elim
  | closed | exchange | complete => exact absurd h (leave_enlisted o _ i)
  | transfer b w => exact h.elim
  | block w => exact h
  | publish => exact h
  | hold => exact h

theorem next_passed {s : State τ χ α} {t : τ} {o : Op χ} {m : Move α} {j : Nat} {e : Entry χ α}
    (h : (o.next (s.refused t o) m).passed j) (he : (s.entries t)[j]? = some e) :
    o.mode = .select ∧ (j < o.index ∨ j = o.index ∧ (match m with | .refuse => True | _ => False)) := by
  have hsel := next_enlisted (passed_enlisted h)
  refine ⟨hsel, ?_⟩
  cases m with
  | refuse =>
    simp only [Op.next, State.refused, hsel] at h
    have := scanAt_passed h he
    rcases Nat.lt_succ_iff_lt_or_eq.mp this with hlt | heq
    · exact .inl hlt
    · exact .inr ⟨heq, trivial⟩
  | closed | exchange | complete => exact absurd (passed_enlisted h) (leave_enlisted o _ j)
  | transfer b w => exact h.elim
  | block w => exact .inl h.2
  | publish => exact .inl h.2
  | hold => exact .inl h.2

section
variable [DecidableEq τ]

def Registered (s : State τ χ α) : Prop :=
  ∀ t i e, (s.pc t).enlisted i → (s.entries t)[i]? = some e →
    0 < ((s.chan e.channel).selectors e.dir).count t

def Noticed (ready : State τ χ α → χ → Dir → Prop) (notifying : χ → Dir → Pc χ → Prop)
    (s : State τ χ α) : Prop :=
  ∀ t i e, (s.pc t).passed i → (s.entries t)[i]? = some e → ready s e.channel e.dir →
    0 < s.sem t ∨ ∃ u, notifying e.channel e.dir (s.pc u)

theorem start_enlisted (s : State τ χ α) (t : τ) (k : Call χ α) (i : Nat) :
    ¬ ((s.start t k).pc t).enlisted i := by
  rcases start_cases s t k with ⟨o, hm, h⟩ | h | h | ⟨c, h⟩ <;> simp_all [Pc.enlisted]

end

theorem addSelect_count_actor [DecidableEq τ] [DecidableEq χ] (s : State τ χ α) (t : τ)
    (e : Entry χ α) (c : χ) (d : Dir) :
    (((s.addSelect t e).chan c).selectors d).count t =
      ((s.chan c).selectors d).count t + if c = e.channel ∧ d = e.dir then 1 else 0 := by
  by_cases hc : c = e.channel
  · subst hc
    by_cases hd : d = e.dir
    · simp [State.addSelect, hd, List.count_append]
    · simp [State.addSelect, hd]
  · simp [State.addSelect, hc]

variable [DecidableEq τ] [DecidableEq χ] [Fintype τ] {size : χ → Nat} {s s' : State τ χ α}
  {a : Action τ χ α} {l : Label τ χ α} {c : χ} {d : Dir}

theorem stepped_ready (hs : Shape size s) (hbuf : size c ≠ 0) (h : Stepped s a l s')
    (hnot : ¬ (s.chan c).Ready d) (hr : (s'.chan c).Ready d) :
    (s'.pc a.actor).notifying c d := by
  obtain ⟨hopen, hstuck⟩ := not_or.mp hnot
  rw [Bool.not_eq_true] at hopen
  rw [not_not] at hstuck
  cases hclosed : (s'.chan c).closedFlag with
  | true =>
    obtain ⟨-, hpc, -⟩ := stepped_closes h hopen hclosed
    rw [hpc]
    rfl
  | false =>
    have hfree : ¬ (s'.chan c).stuck d := hr.resolve_left (by simp [hclosed])
    cases stepped_on h c with
    | quiet sync buffer => exact absurd ((stuck_congr buffer d).mpr hstuck) hfree
    | critical t wake p o m action pc chan admitted outcome acted =>
      subst action chan
      have hfit := hs.fits t
      rw [pc] at hfit
      have hbuffer := congrArg Channel.buffer (acted_here acted)
      rw [after_buffer] at hbuffer
      cases outcome_buffered hbuf (by simpa using hs.kind o.chan) hfit.2 outcome with
      | transfer b w attempts done =>
        rw [acted_pc acted, Action.actor, Function.update_self]
        refine ⟨rfl, ?_⟩
        by_contra hd
        have hsame : o.dir = d := by
          by_contra hne
          exact hd (by rw [flip_of_ne hne, flip_flip])
        rw [transfer_eq_none.mpr (hsame ▸ (stuck_congr (arrive_buffer _ _ _) d).mpr hstuck)] at done
        cases done
      | _ => exact absurd ((stuck_congr (hbuffer.trans (arrive_buffer _ _ _)) d).mpr hstuck) hfree

theorem stepped_registered (hr : Registered s) (h : Stepped s a l s') : Registered s' := by
  have hf := stepped_frame h
  intro t i e hpc he
  by_cases ht : t = a.actor
  · cases h with
    | call u k =>
      subst ht
      exact absurd hpc (start_enlisted s _ k i)
    | spurious u w o => exact hr t i e hpc he
    | critical u wake p o m l s' hpc' hadm hout hact =>
      subst ht
      rw [acted_pc hact, Function.update_self] at hpc
      rw [acted_entries hact] at he
      rw [acted_chan hact, update_chan (fun ch => (ch.selectors e.dir).count _) (by simp)]
      exact hr _ i e (by rw [hpc']; exact next_enlisted hpc) he
    | publish u wake o hpc' =>
      subst ht
      rw [State.sleep_pc, Function.update_self] at hpc
      have hbefore := hr _ i e (by rw [hpc']; exact hpc) he
      refine hbefore.trans_eq (Eq.symm ?_)
      exact update_chan (fun ch => (ch.selectors e.dir).count t) rfl
    | register u wake j e' hpc' he' =>
      subst ht
      rw [State.goto_pc, Function.update_self] at hpc
      have hcount := addSelect_count_actor s t e' e.channel e.dir
      rcases Nat.lt_succ_iff_lt_or_eq.mp hpc with hlt | rfl
      · have hbefore := hr _ i e (by rw [hpc']; exact hlt) he
        exact hbefore.trans_le (hcount ▸ Nat.le_add_right _ _)
      · cases he'.symm.trans he
        rw [State.goto_chan, hcount, if_pos ⟨rfl, rfl⟩]
        exact Nat.succ_pos _
    | registered u wake j hpc' hlast =>
      subst ht
      obtain ⟨hi, -⟩ := List.getElem?_eq_some_iff.mp he
      have hj := List.getElem?_eq_none_iff.mp hlast
      exact hr _ i e (by rw [hpc']; exact hi.trans_le hj) he
    | semWait u wake hpc' =>
      subst ht
      exact hr _ i e (by rw [hpc']; trivial) he
    | closeNotify u wake d c hpc' => subst ht; cases d <;> simp [Pc.enlisted] at hpc
    | closeBroadcast u wake k c hpc' =>
      subst ht
      cases k <;> simp [Pc.enlisted, Cond.nextInClose] at hpc
    | signal u wake o hpc' =>
      subst ht
      simp only [finish_pc, Function.update_self] at hpc
      exact absurd hpc (leave_enlisted o _ i)
    | notify | closeAgain | close | cleanup | cleaned | ret =>
      subst ht
      simp [State.removeSelect, Pc.enlisted] at hpc
  · rw [hf.pc t ht] at hpc
    rw [hf.entries t ht] at he
    rw [hf.selectors t ht]
    exact hr t i e hpc he

theorem stepped_notifying {t : τ} (hcount : 0 < ((s.chan c).selectors d).count t)
    (h : Stepped s a l s') (hn : (s.pc a.actor).notifying c d) :
    0 < s'.sem t ∨ (s'.pc a.actor).notifying c d := by
  cases h with
  | notify u wake o hpc =>
    rw [Action.actor, hpc] at hn
    obtain ⟨rfl, rfl⟩ := hn
    exact .inl (hcount.trans_le (Nat.le_add_left _ _))
  | closeNotify u wake d' c' hpc =>
    rw [Action.actor, hpc] at hn
    cases d' with
    | send =>
      obtain ⟨rfl, rfl⟩ := hn
      exact .inl (hcount.trans_le (Nat.le_add_left _ _))
    | recv =>
      obtain rfl := show c' = c from hn
      cases d with
      | recv => exact .inl (hcount.trans_le (Nat.le_add_left _ _))
      | send => exact .inr (by simp [Pc.notifying])
  | call u k hpc | spurious u w o hpc | critical u wake p o m l s' hpc | publish u wake o hpc
  | signal u wake o hpc | closeAgain u wake c' hpc | close u wake c' hpc
  | closeBroadcast u wake k c' hpc | register u wake i e hpc | registered u wake i hpc
  | semWait u wake hpc | cleanup u wake i o st e hpc | cleaned u wake i o st hpc
  | ret u wake o st hpc =>
    rw [Action.actor, hpc] at hn
    exact hn.elim

theorem stepped_passed (h : Stepped s a l s') {i : Nat} {e : Entry χ α}
    (hpc : (s'.pc a.actor).passed i) (he : (s'.entries a.actor)[i]? = some e) :
    (s.entries a.actor)[i]? = some e ∧ s.sem a.actor ≤ s'.sem a.actor ∧
      ((s.pc a.actor).passed i ∨ ∃ p o wake, a = .run a.actor wake ∧
        s.pc a.actor = .enter p o ∧ o.index = i ∧ o.mode = .select ∧
        Outcome ((s.chan o.chan).arrive o.dir p) o (s.data a.actor o.index) p .refuse) := by
  cases h with
  | call u k => exact absurd (passed_enlisted hpc) (start_enlisted s u k i)
  | spurious u w o => exact ⟨he, le_rfl, .inl hpc⟩
  | critical u wake p o m l s' hpc' hadm hout hact =>
    rw [acted_entries hact] at he
    rw [acted_pc hact, Action.actor, Function.update_self] at hpc
    obtain ⟨hsel, hlt | ⟨rfl, hm⟩⟩ := next_passed hpc he
    · exact ⟨he, (congrFun (acted_sem hact) _).ge, .inl (by rw [Action.actor, hpc']; exact ⟨hsel, hlt⟩)⟩
    · cases m with
      | refuse =>
        exact ⟨he, (congrFun (acted_sem hact) _).ge, .inr ⟨p, o, wake, rfl, hpc', rfl, hsel, hout⟩⟩
      | _ => exact hm.elim
  | publish u wake o hpc' =>
    rw [State.sleep_pc, Action.actor, Function.update_self] at hpc
    exact ⟨he, Nat.le_add_right _ _, .inl (by rw [Action.actor, hpc']; exact hpc)⟩
  | registered u wake j hpc' hlast =>
    rw [State.goto_pc, Action.actor, Function.update_self] at hpc
    exact absurd (scanAt_passed hpc he) (Nat.not_lt_zero i)
  | semWait u wake hpc' =>
    rw [State.goto_pc, Action.actor, Function.update_self] at hpc
    exact absurd (scanAt_passed hpc he) (Nat.not_lt_zero i)
  | closeNotify u wake d c hpc' => cases d <;> simp [Pc.passed] at hpc
  | closeBroadcast u wake k c hpc' => cases k <;> simp [Pc.passed, Cond.nextInClose] at hpc
  | signal u wake o hpc' =>
    simp only [Action.actor, finish_pc, Function.update_self] at hpc
    exact absurd (passed_enlisted hpc) (leave_enlisted o _ i)
  | notify | closeAgain | close | register | cleanup | cleaned | ret =>
    simp [State.addSelect, State.removeSelect, Pc.passed] at hpc

theorem Noticed.step {ready : State τ χ α → χ → Dir → Prop} {notifying : χ → Dir → Pc χ → Prop}
    (hn : Noticed ready notifying s) (hs : Shape size s) (hr : Registered s)
    (h : Stepped s a l s')
    (makes : ∀ c d, ¬ ready s c d → ready s' c d → notifying c d (s'.pc a.actor))
    (posts : ∀ c d t, 0 < ((s.chan c).selectors d).count t → notifying c d (s.pc a.actor) →
      0 < s'.sem t ∨ notifying c d (s'.pc a.actor))
    (refuses : ∀ p o v, p.fits size o → Outcome ((s.chan o.chan).arrive o.dir p) o v p .refuse →
      ¬ ready s o.chan o.dir) : Noticed ready notifying s' := by
  have hf := stepped_frame h
  intro t i e hpc he hready
  have kept (hpc : (s.pc t).passed i) (he : (s.entries t)[i]? = some e)
      (hsem : s.sem t ≤ s'.sem t) :
      0 < s'.sem t ∨ ∃ u, notifying e.channel e.dir (s'.pc u) := by
    by_cases hbefore : ready s e.channel e.dir
    · rcases hn t i e hpc he hbefore with hpos | ⟨u, hu⟩
      · exact .inl (hpos.trans_le hsem)
      · by_cases hua : u = a.actor
        · subst hua
          have hcount := hr t i e (passed_enlisted hpc) he
          exact (posts _ _ t hcount hu).imp_right fun hu => ⟨_, hu⟩
        · exact .inr ⟨u, by rwa [hf.pc u hua]⟩
    · exact .inr ⟨_, makes _ _ hbefore hready⟩
  by_cases ht : t = a.actor
  · subst ht
    obtain ⟨he, hsem, hbefore | ⟨p, o, wake, -, hpc', rfl, -, hout⟩⟩ := stepped_passed h hpc he
    · exact kept hbefore he hsem
    · have hfit := hs.fits a.actor
      rw [hpc'] at hfit
      obtain ⟨e', he', hchan, hdir⟩ := hfit.1.entry
      cases he'.symm.trans he
      have hnot := refuses p o _ hfit.2 hout
      rw [← hchan, ← hdir] at hnot
      exact .inr ⟨_, makes _ _ hnot hready⟩
  · rw [hf.pc t ht] at hpc
    rw [hf.entries t ht] at he
    exact kept hpc he (hf.sem t ht)

def BufferReady (size : χ → Nat) (s : State τ χ α) (c : χ) (d : Dir) : Prop :=
  size c ≠ 0 ∧ (s.chan c).Ready d

theorem stepped_noticed (hs : Shape size s) (hr : Registered s)
    (hn : Noticed (BufferReady size) Pc.notifying s) (h : Stepped s a l s') :
    Noticed (BufferReady size) Pc.notifying s' := by
  refine hn.step hs hr h (fun c d hnot hready => ?_) (fun c d t hcount hu => ?_)
    fun p o v hfit hout => ?_
  · exact stepped_ready hs hready.1 h (fun hr => hnot ⟨hready.1, hr⟩) hready.2
  · exact stepped_notifying hcount h hu
  · rintro ⟨hbuf, hready⟩
    cases outcome_buffered hbuf (by simpa using hs.kind o.chan) hfit hout with
    | refuse lock isOpen mode stuck =>
      rcases hready with hclosed | hfree
      · simp [hclosed] at isOpen
      · exact hfree ((stuck_congr (arrive_buffer _ _ _) o.dir).mp stuck)

section
variable {tr : List (Event (State τ χ α) (Action τ χ α) (Label τ χ α))}
  (h : Run (system size) tr s)
include h

theorem run_registered : Registered s :=
  h.always (P := Registered) (fun s hi t i e hpc => by simp [hi.pc t, Pc.enlisted] at hpc)
    fun _ _ _ _ hr h => stepped_registered hr (stepped_of_step h)

theorem run_noticed : Noticed (BufferReady size) Pc.notifying s := by
  refine (h.along (P := fun _ => Noticed (BufferReady size) Pc.notifying) (fun s hi t i e hpc => ?_)
    fun tr s a l s' hr hn hs => ?_)
  · simp [hi.pc t, Pc.passed] at hpc
  · exact stepped_noticed (run_sound hr).shape (run_registered hr) hn (stepped_of_step hs)

theorem select_no_lost_wakeup {t : τ} (hpc : s.pc t = .semWait) (hsem : s.sem t = 0)
    (settled : ∀ u, u ≠ t → (s.pc u).notifies = false) :
    ∀ e ∈ s.entries t, size e.channel ≠ 0 → (s.chan e.channel).closedFlag = false ∧
      (e.dir = .recv → (s.chan e.channel).buffer.size = 0) ∧
      (e.dir = .send → (s.chan e.channel).buffer.size = size e.channel) := by
  intro e he hbuf
  obtain ⟨i, he⟩ := List.mem_iff_getElem?.mp he
  have hnot : ¬ (s.chan e.channel).Ready e.dir := by
    intro hready
    rcases run_noticed h t i e (by rw [hpc]; trivial) he ⟨hbuf, hready⟩ with hpos | ⟨u, hu⟩
    · omega
    · have hut : u ≠ t := by
        rintro rfl
        rw [hpc] at hu
        exact hu
      simpa [settled u hut] using notifying_notifies hu
  obtain ⟨hopen, hstuck⟩ := not_or.mp hnot
  rw [not_not] at hstuck
  have hq := run_queue h hbuf
  refine ⟨by simpa using hopen, fun hd => ?_, fun hd => ?_⟩
  · rwa [hd] at hstuck
  · rw [hd] at hstuck
    exact le_antisymm (hq.capacity ▸ hq.valid.size) (hq.capacity ▸ hstuck)

end

theorem select_no_lost_wakeup_two :
    ∃ (tr : List (Event (State (Fin 2) Bool Nat) _ _)) (s : _), Run (system fun _ => 1) tr s ∧
      s.pc 0 = .semWait ∧ (s.chan true).buffer.size = 0 ∧ (s.chan false).buffer.size = 1 := by
  let go (t : Fin 2) : Action (Fin 2) Bool Nat := .run t fun _ => true
  obtain ⟨tr, s, hr, -, hpc, hsem, hsettled, hes⟩ := replay_run (M := system fun _ => 1)
    (initial_init (fun _ : Bool => 1) 0)
    [.call 1 (.send false 7), go 1, go 1, go 1, go 1,
      .call 0 (.select [⟨true, .recv, 0⟩, ⟨true, .recv, 0⟩, ⟨false, .send, 8⟩]), go 0, go 0, go 0,
      go 0, go 0, go 0, go 0]
    (fun _ s => s.pc 0 = .semWait ∧ s.sem 0 = 0 ∧ (∀ u, u ≠ 0 → (s.pc u).notifies = false) ∧
      s.entries 0 = [⟨true, .recv, 0⟩, ⟨true, .recv, 0⟩, ⟨false, .send, 8⟩])
    (by decide +kernel)
  have hall := select_no_lost_wakeup hr hpc hsem hsettled
  rw [hes] at hall
  exact ⟨tr, s, hr, hpc, (hall ⟨true, .recv, 0⟩ (by simp) (by decide)).2.1 rfl,
    (hall ⟨false, .send, 8⟩ (by simp) (by decide)).2.2 rfl⟩

end OperatingSystems.Concurrency
