import OperatingSystems.Concurrency.Selecting

namespace OperatingSystems.Concurrency
open Channel Transition

variable {τ χ α : Type}

def State.blocked (s : State τ χ α) (t : τ) : Prop :=
  (∃ w o, s.pc t = .enter (.wait w) o ∧ s.woken t = false) ∨ s.pc t = .semWait ∧ s.sem t = 0

def State.offers (s : State τ χ α) (t : τ) (c : χ) (d : Dir) : Prop :=
  ∃ e ∈ s.entries t, e.channel = c ∧ e.dir = d

def State.deadlocked (s : State τ χ α) (c : χ) : Prop :=
  (∀ t, s.pc t = .idle ∨ s.blocked t) ∧ (s.chan c).closedFlag = false ∧
    ∃ t u, t ≠ u ∧ s.blocked t ∧ s.blocked u ∧ s.offers t c .send ∧ s.offers u c .recv

def Action.waits : Action τ χ α → Bool
  | .call _ (.nonBlockingSend _ _) => false
  | .call _ (.nonBlockingReceive _) => false
  | _ => true

def Pc.publishing (c : χ) (d : Dir) : Pc χ → Prop
  | .publish o => o.chan = c ∧ o.dir.flip = d
  | _ => False

def PartnerReady (size : χ → Nat) (s : State τ χ α) (c : χ) (d : Dir) : Prop :=
  size c = 0 ∧ (s.chan c).partnerActive d

def Facing (size : χ → Nat) (s : State τ χ α) : Prop :=
  ∀ t u i j e f, (s.pc t).passed i → (s.entries t)[i]? = some e → (s.pc u).passed j →
    (s.entries u)[j]? = some f → size e.channel = 0 → f.channel = e.channel →
    f.dir ≠ e.dir.flip

def Waiting (s : State τ χ α) : Prop := ∀ t o, (s.pc t).op = some o → o.mode ≠ .nonblocking

theorem refuse_unbuffered {size : χ → Nat} {ch : Channel τ α} {o : Op χ} {v : α} {p : Point}
    (hk : ch.isUnbuffered = (size o.chan == 0)) (hp : p.fits size o) (hc : size o.chan = 0)
    (h : Outcome ch o v p .refuse) : ¬ ch.ready o.dir := by
  cases h with
  | pass passes => exact passes.2
  | refuse attempts => exact absurd hc (attempts_buffered attempts hk hp)

theorem partnerActive_congr {ch ch' : Channel τ α} (h : ch'.sync = ch.sync) (d : Dir) :
    ch'.partnerActive d ↔ ch.partnerActive d := by
  simp only [sync, Prod.mk.injEq] at h
  simp only [partnerActive, h]

theorem leave_op (o : Op χ) (st : Status) : (o.leave st).op = none := by
  rcases leave_cases o st with ⟨-, h⟩ | ⟨-, h⟩ <;> simp [h, Pc.op]

theorem scanAt_op {s : State τ χ α} {t : τ} {i : Nat} {o : Op χ}
    (h : (s.scanAt t i).op = some o) : o.mode = .select := by
  rcases scanAt_cases s t i with ⟨e, -, hs⟩ | ⟨-, hs⟩ <;> rw [hs] at h <;> cases h
  rfl

theorem next_op {s : State τ χ α} {t : τ} {o o' : Op χ} {m : Move α}
    (h : (o.next (s.refused t o) m).op = some o') : o' = o ∨ o'.mode = .select := by
  cases m with
  | refuse =>
    unfold Op.next State.refused at h
    cases hm : o.mode with
    | select =>
      simp only [hm] at h
      exact .inr (scanAt_op h)
    | blocking | nonblocking =>
      simp only [hm] at h
      cases h
  | closed | exchange | complete =>
    rw [Op.next, leave_op] at h
    cases h
  | transfer b w => cases h
  | block w | publish | hold =>
    cases h
    exact .inl rfl

theorem start_op [DecidableEq τ] {s : State τ χ α} {t : τ} {k : Call χ α} {o : Op χ}
    (hk : (Action.call t k : Action τ χ α).waits = true)
    (h : ((s.start t k).pc t).op = some o) : o.mode ≠ .nonblocking := by
  unfold State.start at h
  cases k with
  | select es => dsimp only at h; split at h <;> simp [Pc.op] at h
  | close c => simp [Pc.op] at h
  | send c v | receive c =>
    simp only [Function.update_self, Pc.op, Option.some.injEq] at h
    simp [← h]
  | nonBlockingSend c v | nonBlockingReceive c => cases hk

section
variable [DecidableEq χ]

-- a select that takes a registered select for a partner has nothing else to offer
def State.devoted (s : State τ χ α) : Action τ χ α → Bool
  | .run t _ =>
    match s.pc t with
    | .enter .lock o =>
      decide (o.mode = .select → (s.chan o.chan).closedFlag = false →
        (s.chan o.chan).isUnbuffered = true → (s.chan o.chan).ready o.dir →
        ¬ (s.chan o.chan).partnerActive o.dir →
        ∀ e ∈ s.entries t, e.channel = o.chan ∧ e.dir = o.dir)
    | _ => true
  | _ => true

def Devoted (s : State τ χ α) : Prop :=
  ∀ t c w o, (s.pc t).stays c = some (w, o) → ∀ e ∈ s.entries t, e.channel = o.chan ∧ e.dir = o.dir

theorem blocked_offers {size : χ → Nat} {s : State τ χ α} {c : χ} {d : Dir}
    (hs : Shape size s) (hd : Devoted s) (hw : Waiting s) (hc : size c = 0)
    {t : τ} (hb : s.blocked t) (ho : s.offers t c d) :
    (∃ w o, (w = .rendezvous ∨ w = .complete) ∧ s.pc t = .enter (.wait w) o ∧ o.chan = c ∧
      o.dir = d ∧ s.woken t = false) ∨
    (s.pc t = .semWait ∧ s.sem t = 0 ∧ ∃ (i : Nat) (e : Entry χ α), (s.entries t)[i]? = some e ∧
      e.channel = c ∧ e.dir = d) := by
  obtain ⟨e, he, hec, hed⟩ := ho
  rcases hb with ⟨w, o, hpc, hsleep⟩ | ⟨hpc, hsem⟩
  · have hone := hd t o.chan w o (by simp [hpc, Pc.stays]) e he
    have hoc : o.chan = c := hone.1.symm.trans hec
    refine .inl ⟨w, o, ?_, hpc, hoc, hone.2.symm.trans hed, hsleep⟩
    have hfit := hs.fits t
    rw [hpc] at hfit
    cases w with
    | retry => exact absurd (hoc ▸ hc) hfit.2.2
    | loop => exact absurd hfit.2.1 (hw t o (by rw [hpc]; rfl))
    | rendezvous => exact .inl rfl
    | complete => exact .inr rfl
  · obtain ⟨i, hi⟩ := List.mem_iff_getElem?.mp he
    exact .inr ⟨hpc, hsem, i, e, hi, hec, hed⟩

theorem waiter_active {s : State τ χ α} {c : χ} (hh : Handshake s c) (hq : Queued s c)
    (hall : ∀ t, s.pc t = .idle ∨ s.blocked t) {t : τ} {w : Wait} {o : Op χ}
    (hw : w = .rendezvous ∨ w = .complete) (hpc : s.pc t = .enter (.wait w) o)
    (hc : o.chan = c) (hsleep : s.woken t = false) :
    (s.chan c).unbufStage = 1 ∧ (s.chan c).activeUnbufOp = some o.dir := by
  have hstays : (s.pc t).stays c = some (w, o) := by simp [hpc, Pc.stays, hc]
  have hnotmet : ∀ t' o', s.pc t' = .enter (.wait .complete) o' → s.woken t' = true → False := by
    intro t' o' hpc' hwoken
    rcases hall t' with hidle | ⟨w', o'', -, hsleep'⟩ | ⟨hsem, -⟩
    · simp [hidle] at hpc'
    · simp [hwoken] at hsleep'
    · simp [hsem] at hpc'
  rcases hw with rfl | rfl
  · obtain ⟨hstage, hactive⟩ := hq t o hstays hsleep
    cases hh with
    | free stage => exact absurd stage hstage
    | offered t' o' stage => exact ⟨stage, hactive stage⟩
    | met t' o' stage pc chan alone woken => exact (hnotmet t' o' pc woken).elim
  · cases hh with
    | free stage nobody => exact absurd hstays (nobody t o)
    | offered t' o' stage stays alone active =>
      obtain rfl := alone t o hstays
      cases hstays.symm.trans stays
      exact ⟨stage, active⟩
    | met t' o' stage pc chan alone woken => exact (hnotmet t' o' pc woken).elim

end

variable [DecidableEq τ] [DecidableEq χ] [Fintype τ] {size : χ → Nat} {s s' : State τ χ α}
  {a : Action τ χ α} {l : Label τ χ α} {c : χ} {d : Dir}

theorem stepped_alerted (hs : Shape size s) (hr : Registered s)
    (hn : Noticed (PartnerReady size) Pc.publishing s) (h : Stepped s a l s') :
    Noticed (PartnerReady size) Pc.publishing s' := by
  refine hn.step hs hr h (fun c d hnot hready => ?_) (fun c d t hcount hu => ?_)
    fun p o v hfit hout => ?_
  · have hno : ¬ (s.chan c).partnerActive d := fun hr => hnot ⟨hready.1, hr⟩
    obtain ⟨hstage, hactive⟩ := hready.2
    cases stepped_on h c with
    | quiet sync => exact absurd ((partnerActive_congr sync d).mp hready.2) hno
    | critical t wake p o m action pc chan admitted outcome acted =>
      subst action chan
      rw [acted_here acted, after_unbufStage] at hstage
      rw [acted_here acted, after_activeUnbufOp] at hactive
      rw [acted_pc acted, Action.actor, Function.update_self]
      cases outcome with
      | publish enters =>
        refine ⟨rfl, ?_⟩
        rw [Option.some.inj hactive, flip_flip]
      | exchange => cases hstage
      | complete => cases hstage
      | _ => exact absurd ⟨by simpa using hstage, by simpa using hactive⟩ hno
  · cases h with
    | publish u wake o hpc =>
      rw [Action.actor, hpc] at hu
      obtain ⟨rfl, rfl⟩ := hu
      exact .inl (hcount.trans_le (Nat.le_add_left _ _))
    | call u k hpc | spurious u w o hpc | critical u wake p o m l s' hpc | notify u wake o hpc
    | signal u wake o hpc | closeAgain u wake c' hpc | close u wake c' hpc
    | closeNotify u wake d' c' hpc | closeBroadcast u wake k c' hpc | register u wake i e hpc
    | registered u wake i hpc | semWait u wake hpc | cleanup u wake i o st e hpc
    | cleaned u wake i o st hpc | ret u wake o st hpc =>
      rw [Action.actor, hpc] at hu
      exact hu.elim
  · rintro ⟨hc, hready⟩
    refine refuse_unbuffered (by simpa using hs.kind o.chan) hfit hc hout (.inl ?_)
    simpa [partnerActive] using hready

theorem stepped_facing (hs : Shape size s) (hr : Registered s) (hf : Facing size s)
    (h : Stepped s a l s') : Facing size s' := by
  have hframe := stepped_frame h
  have before {t : τ} {i : Nat} {e : Entry χ α} (hpc : (s'.pc t).passed i)
      (he : (s'.entries t)[i]? = some e) : (s.entries t)[i]? = some e ∧
        ((s.pc t).passed i ∨ t = a.actor ∧ ∃ p o, s.pc t = .enter p o ∧ o.index = i ∧
          (size e.channel = 0 → (s.chan e.channel).selectors e.dir.flip = [])) := by
    by_cases ht : t = a.actor
    · subst ht
      obtain ⟨he, -, hbefore | ⟨p, o, wake, -, hpc', rfl, -, hout⟩⟩ := stepped_passed h hpc he
      · exact ⟨he, .inl hbefore⟩
      · refine ⟨he, .inr ⟨rfl, p, o, hpc', rfl, fun hc => ?_⟩⟩
        have hfit := hs.fits a.actor
        rw [hpc'] at hfit
        obtain ⟨e', he', hchan, hdir⟩ := hfit.1.entry
        cases he'.symm.trans he
        have hno := refuse_unbuffered (by simpa using hs.kind o.chan) hfit.2 (hchan ▸ hc) hout
        obtain ⟨-, hlen⟩ := not_or.mp hno
        rw [hchan, hdir]
        simpa using hlen
    · rw [hframe.pc t ht] at hpc
      rw [hframe.entries t ht] at he
      exact ⟨he, .inl hpc⟩
  have seen_by {t u : τ} {i j : Nat} {e f : Entry χ α} (hnone : (s.chan e.channel).selectors e.dir.flip = [])
      (hu : (s.pc u).passed j) (hf : (s.entries u)[j]? = some f) (hc : f.channel = e.channel)
      (hd : f.dir = e.dir.flip) : False := by
    have hcount := hr u j f (passed_enlisted hu) hf
    rw [hc, hd, hnone] at hcount
    simp at hcount
  intro t u i j e f ht he hu hfe hc hchan hdir
  obtain ⟨he, ht⟩ := before ht he
  obtain ⟨hfe, hu⟩ := before hu hfe
  rcases ht with ht | ⟨rfl, p, o, hpc, rfl, hnone⟩
  · rcases hu with hu | ⟨rfl, p, o, hpc, rfl, hnone⟩
    · exact hf t u i j e f ht he hu hfe hc hchan hdir
    · refine seen_by (t := t) (i := i) (hnone (hchan ▸ hc)) ht he hchan.symm ?_
      rw [hdir, flip_flip]
  · rcases hu with hu | ⟨rfl, p', o', hpc', rfl, hnone'⟩
    · exact seen_by (t := u) (i := j) (hnone hc) hu hfe hchan hdir
    · cases hpc.symm.trans hpc'
      cases he.symm.trans hfe
      cases hd : e.dir <;> simp [hd, Dir.flip] at hdir

theorem stepped_devoted (hs : Shape size s) (hd : Devoted s) (hok : s.devoted a = true)
    (h : Stepped s a l s') : Devoted s' := by
  intro t c w o hst
  have hcall : ∀ k, a ≠ .call t k := by
    rintro k rfl
    cases h
    simp at hst
  rw [stepped_entries h hcall]
  cases stepped_on h c with
  | quiet _ _ _ stays => exact hd t c w o (stays t ▸ hst)
  | critical u wake p o' m action pc chan admitted outcome acted =>
    subst action chan
    by_cases hut : t = u
    · subst hut
      rw [acted_stays acted] at hst
      have hfit := hs.fits t
      rw [pc] at hfit
      have waiting {w : Wait} (hp : p = .wait w) :
          ∀ e ∈ s.entries t, e.channel = o'.chan ∧ e.dir = o'.dir := by
        subst hp
        exact hd t o'.chan w o' (by simp [pc, Pc.stays])
      simp only [State.devoted, pc] at hok
      -- `unbuffered_sync` that waits has no active partner
      have entered (he : ((s.chan o'.chan).arrive o'.dir p).Enters o' p)
          (hno : ¬ (s.chan o'.chan).partnerActive o'.dir) :
          ∀ e ∈ s.entries t, e.channel = o'.chan ∧ e.dir = o'.dir := by
        rcases he with ⟨rfl, hopen, hu, hmode | ⟨hmode, hready⟩⟩ | ⟨rfl, -⟩ | hwait
        · exact hfit.1.plain (by simp [hmode])
        · exact of_decide_eq_true hok hmode hopen hu hready hno
        · exact hfit.1.plain (by simp [hfit.2.1])
        · exact waiting hwait
      cases outcome with
      | publish enters stage =>
        cases hst
        refine entered enters fun hactive => ?_
        exact absurd (hactive.1.symm.trans (by simpa using stage)) (by decide)
      | behind enters stage active =>
        cases hst
        exact entered enters fun hactive =>
          partnerActive_behind hactive (by simpa using active)
      | stall loops =>
        cases hst
        refine hfit.1.plain ?_
        rw [(loops_unbuffered loops (by simpa using hs.kind _) hfit.2).1]
        decide
      | retry _ mode =>
        cases hst
        exact hfit.1.plain (by simp [mode])
      | _ => cases hst
    · rw [acted_other acted hut] at hst
      exact hd t _ w o hst

theorem stepped_waiting (hw : Waiting s) (hok : a.waits = true) (h : Stepped s a l s') :
    Waiting s' := by
  have hf := stepped_frame h
  intro t o ho
  by_cases ht : t = a.actor
  · subst ht
    cases h with
    | call t k => exact start_op hok ho
    | spurious t w o' hpc => exact hw t o ho
    | critical t wake p o' m l s' hpc hadm hout hact =>
      rw [acted_pc hact, Action.actor, Function.update_self] at ho
      rcases next_op ho with rfl | hm
      · exact hw t o (by rw [hpc]; rfl)
      · simp [hm]
    | publish t wake o' hpc =>
      rw [State.sleep_pc, Action.actor, Function.update_self] at ho
      exact hw t o (by rw [hpc]; exact ho)
    | signal t wake o' hpc =>
      simp only [Action.actor, finish_pc, Function.update_self, leave_op] at ho
      cases ho
    | registered t wake i hpc | semWait t wake hpc =>
      rw [State.goto_pc, Action.actor, Function.update_self] at ho
      simp [scanAt_op ho]
    | closeNotify t wake d c hpc => cases d <;> simp [Pc.op] at ho
    | closeBroadcast t wake k c hpc => cases k <;> simp [Pc.op, Cond.nextInClose] at ho
    | notify | closeAgain | close | register | cleanup | cleaned | ret =>
      simp [State.addSelect, State.removeSelect, Pc.op] at ho
  · rw [hf.pc t ht] at ho
    exact hw t o ho

theorem select_deadlock_free {tr : List (Event (State τ χ α) (Action τ χ α) (Label τ χ α))}
    (h : Run (system size) tr s) (hc : size c = 0) (hcalls : Meets (fun _ a => a.waits = true) tr)
    (hok : Meets (fun s a => s.devoted a = true) tr) : ¬ s.deadlocked c := by
  have hs := run_sound h
  have hreg := run_registered h
  have hw : Waiting s := h.invariant (P := fun _ => Waiting)
    (fun s hi t o ho => by simp [hi.pc t, Pc.op] at ho)
    (fun tr s a l s' hr hw ha hs => stepped_waiting hw ha (stepped_of_step hs)) hcalls
  have hd : Devoted s := h.invariant (P := fun _ => Devoted)
    (fun s hi t c w o hst => by simp [hi.pc t, Pc.stays] at hst)
    (fun tr s a l s' hr hd ha hs =>
      stepped_devoted (run_sound hr).shape hd ha (stepped_of_step hs)) hok
  have hf : Facing size s := h.along (P := fun _ => Facing size)
    (fun s hi t u i j e f hpc => by simp [hi.pc t, Pc.passed] at hpc)
    fun tr s a l s' hr hf hs =>
      stepped_facing (run_sound hr).shape (run_registered hr) hf (stepped_of_step hs)
  have hn : Noticed (PartnerReady size) Pc.publishing s :=
    h.along (P := fun _ => Noticed (PartnerReady size) Pc.publishing)
      (fun s hi t i e hpc => by simp [hi.pc t, Pc.passed] at hpc)
      fun tr s a l s' hr hn hs =>
        stepped_alerted (run_sound hr).shape (run_registered hr) hn (stepped_of_step hs)
  rintro ⟨hall, -, t, u, hne, htb, hub, hto, huo⟩
  have alerted {t : τ} {i : Nat} {e : Entry χ α} (hpc : s.pc t = .semWait) (hsem : s.sem t = 0)
      (he : (s.entries t)[i]? = some e) (hec : e.channel = c)
      (hactive : (s.chan c).partnerActive e.dir) : False := by
    rcases hn t i e (by rw [hpc]; trivial) he ⟨hec ▸ hc, hec ▸ hactive⟩ with hpos | ⟨v, hv⟩
    · omega
    · rcases hall v with hidle | ⟨w, o, hpc', -⟩ | ⟨hsem', -⟩
      · rw [hidle] at hv
        exact hv
      · rw [hpc'] at hv
        exact hv
      · rw [hsem'] at hv
        exact hv
  rcases blocked_offers hs.shape hd hw hc htb hto with
    ⟨w, o, hwait, hpc, hoc, hod, hsleep⟩ | ⟨hpc, hsem, i, e, he, hec, hed⟩
  · obtain ⟨hstage, hactive⟩ :=
      waiter_active (hs.handshake c) (hs.queued c) hall hwait hpc hoc hsleep
    rcases blocked_offers hs.shape hd hw hc hub huo with
      ⟨w', o', hwait', hpc', hoc', hod', hsleep'⟩ | ⟨hpc', hsem', j, f, hf', hfc, hfd⟩
    · have hactive' := (waiter_active (hs.handshake c) (hs.queued c) hall hwait' hpc' hoc' hsleep').2
      rw [hactive, hod, hod'] at hactive'
      cases hactive'
    · refine alerted hpc' hsem' hf' hfc ⟨hstage, ?_⟩
      rw [hactive, hod, hfd]
      rfl
  · rcases blocked_offers hs.shape hd hw hc hub huo with
      ⟨w', o', hwait', hpc', hoc', hod', hsleep'⟩ | ⟨hpc', hsem', j, f, hf', hfc, hfd⟩
    · obtain ⟨hstage, hactive⟩ :=
        waiter_active (hs.handshake c) (hs.queued c) hall hwait' hpc' hoc' hsleep'
      refine alerted hpc hsem he hec ⟨hstage, ?_⟩
      rw [hactive, hod', hed]
      rfl
    · refine hf t u i j e f (by rw [hpc]; trivial) he (by rw [hpc']; trivial) hf' (hec ▸ hc)
        (hfc.trans hec.symm) ?_
      rw [hfd, hed]
      rfl

theorem select_deadlock_free_receivers :
    ∃ (tr : List (Event (State (Fin 2) Unit Nat) _ _)) (s : _), Run (system fun _ => 0) tr s ∧
      s.blockedOn () .rendezvousComplete 1 = true ∧ s.pc 0 = .semWait ∧ ¬ s.deadlocked () := by
  let go (t : Fin 2) : Action (Fin 2) Unit Nat := .run t fun _ => true
  obtain ⟨tr, s, hr, -, hb, hpc, hcalls, hok⟩ := replay_run (M := system fun _ => 0)
    (initial_init (fun _ : Unit => 0) 0)
    [.call 0 (.select [⟨(), .recv, 0⟩]), go 0, go 0, go 0, .call 1 (.select [⟨(), .send, 7⟩]),
      go 1, go 1, go 1, go 1]
    (fun tr s => s.blockedOn () .rendezvousComplete 1 = true ∧ s.pc 0 = .semWait ∧
      Meets (fun _ a => a.waits = true) tr ∧ Meets (fun s a => s.devoted a = true) tr)
    (by decide +kernel)
  exact ⟨tr, s, hr, hb, hpc, select_deadlock_free hr rfl hcalls hok⟩

theorem select_deadlock :
    ∃ (tr : List (Event (State (Fin 2) Unit Nat) _ _)) (s : _), Run (system fun _ => 0) tr s ∧
      Meets (fun _ a => a.waits = true) tr ∧ s.deadlocked () ∧ ∀ t, s.blocked t := by
  let go (t : Fin 2) : Action (Fin 2) Unit Nat := .run t fun _ => true
  obtain ⟨tr, s, hr, -, hcalls, hb₀, hb₁, hopen, hes₀, hes₁⟩ := replay_run (M := system fun _ => 0)
    (initial_init (fun _ : Unit => 0) 0)
    [.call 0 (.select [⟨(), .send, 7⟩, ⟨(), .recv, 0⟩]), go 0, go 0, go 0, go 0, go 0,
      .call 1 (.select [⟨(), .send, 8⟩, ⟨(), .recv, 0⟩]), go 1, go 1, go 1, go 1]
    (fun tr s => Meets (fun _ a => a.waits = true) tr ∧
      s.blockedOn () .rendezvousComplete 0 = true ∧ s.blockedOn () .rendezvousWait 1 = true ∧
      (s.chan ()).closedFlag = false ∧ s.entries 0 = [⟨(), .send, 7⟩, ⟨(), .recv, 0⟩] ∧
      s.entries 1 = [⟨(), .send, 8⟩, ⟨(), .recv, 0⟩])
    (by decide +kernel)
  have hall : ∀ t, s.blocked t := by
    intro t
    obtain ⟨k, hk⟩ : ∃ k, s.blockedOn () k t = true := by
      match t with
      | 0 => exact ⟨_, hb₀⟩
      | 1 => exact ⟨_, hb₁⟩
    obtain ⟨w, o, hpc, -, -, hw⟩ := blockedOn_iff.mp hk
    exact .inl ⟨w, o, hpc, hw⟩
  exact ⟨tr, s, hr, hcalls, ⟨fun t => .inr (hall t), hopen, 0, 1, by decide, hall 0, hall 1,
    by simp [State.offers, hes₀], by simp [State.offers, hes₁]⟩, hall⟩

end OperatingSystems.Concurrency
