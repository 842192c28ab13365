import OperatingSystems.Concurrency.Focus

namespace OperatingSystems.Concurrency
open Channel Transition

variable {τ χ α : Type} [DecidableEq χ]

-- who is in the three stages of `unbuffered_sync`
inductive Handshake (s : State τ χ α) (c : χ) : Prop
  | free (stage : (s.chan c).unbufStage = 0)
      (nobody : ∀ t o, (s.pc t).stays c ≠ some (.complete, o))
  | offered (t : τ) (o : Op χ) (stage : (s.chan c).unbufStage = 1)
      (stays : (s.pc t).stays c = some (.complete, o))
      (alone : ∀ u o', (s.pc u).stays c = some (.complete, o') → u = t)
      (active : (s.chan c).activeUnbufOp = some o.dir)
      (data : (s.chan c).unbufData = some (t, o.index))
  | met (t : τ) (o : Op χ) (stage : (s.chan c).unbufStage = 2)
      (pc : s.pc t = .enter (.wait .complete) o) (chan : o.chan = c)
      (alone : ∀ u o', (s.pc u).stays c = some (.complete, o') → u = t)
      (woken : s.woken t = true)

-- who sleeps on `rendezvous_wait_cv`
def Queued (s : State τ χ α) (c : χ) : Prop :=
  ∀ t o, (s.pc t).stays c = some (.rendezvous, o) → s.woken t = false →
    (s.chan c).unbufStage ≠ 0 ∧
      ((s.chan c).unbufStage = 1 → (s.chan c).activeUnbufOp = some o.dir)

theorem Handshake.of_same {s s' : State τ χ α} {c : χ} (h : Handshake s c)
    (hsync : (s'.chan c).sync = (s.chan c).sync)
    (hstays : ∀ u o, (s'.pc u).stays c = some (.complete, o) ↔
      (s.pc u).stays c = some (.complete, o))
    (hkeeps : ∀ u o, s.pc u = .enter (.wait .complete) o → o.chan = c →
      s'.pc u = s.pc u ∧ (s.woken u = true → s'.woken u = true)) : Handshake s' c := by
  simp only [sync, Prod.mk.injEq] at hsync
  obtain ⟨hstage, hactive, hdata⟩ := hsync
  cases h with
  | free stage nobody => exact .free (hstage.trans stage) fun u o => by simpa [hstays] using nobody u o
  | offered t o stage stays alone active data =>
    exact .offered t o (hstage.trans stage) ((hstays t o).mpr stays)
      (fun u o' hu => alone u o' ((hstays u o').mp hu)) (hactive.trans active) (hdata.trans data)
  | met t o stage pc chan alone woken =>
    obtain ⟨hpc, hw⟩ := hkeeps t o pc chan
    exact .met t o (hstage.trans stage) (hpc.trans pc) chan
      (fun u o' hu => alone u o' ((hstays u o').mp hu)) (hw woken)

theorem Queued.of_same {s s' : State τ χ α} {c : χ} (h : Queued s c)
    (hsync : (s'.chan c).sync = (s.chan c).sync)
    (hstays : ∀ u o, (s'.pc u).stays c = some (.rendezvous, o) → s'.woken u = false →
      (s.pc u).stays c = some (.rendezvous, o) ∧ s.woken u = false) : Queued s' c := by
  simp only [sync, Prod.mk.injEq] at hsync
  obtain ⟨hstage, hactive, -⟩ := hsync
  intro u o hu hw
  obtain ⟨hu, hw⟩ := hstays u o hu hw
  rw [hstage, hactive]
  exact h u o hu hw

theorem init_handshake {size : χ → Nat} {s : State τ χ α} (h : Init size s) (c : χ) :
    Handshake s c ∧ Queued s c := by
  obtain ⟨g, hg⟩ := h.chan c
  constructor
  · exact .free (by rw [hg]; rfl) fun t o => by simp [h.pc t, Pc.stays]
  · intro t o
    simp [h.pc t, Pc.stays]

theorem blockedOn_iff {s : State τ χ α} {c : χ} {k : Cond} {u : τ} : s.blockedOn c k u = true ↔
    ∃ w o, s.pc u = .enter (.wait w) o ∧ o.chan = c ∧ w.cond o.dir = k ∧ s.woken u = false := by
  unfold State.blockedOn
  constructor
  · intro h
    obtain ⟨hw, hu⟩ := Bool.and_eq_true_iff.mp h
    unfold Pc.waitsOn at hw
    split at hw
    · rename_i w o hpc
      obtain ⟨hc, hk⟩ := of_decide_eq_true hw
      exact ⟨w, o, hpc, hc, hk, by simpa using hu⟩
    · cases hw
  · rintro ⟨w, o, hpc, hc, hk, hu⟩
    simp [hpc, Pc.waitsOn, hc, hk, hu]

theorem cond_complete {w : Wait} {d : Dir} : w.cond d = .rendezvousComplete ↔ w = .complete := by
  cases w <;> cases d <;> simp [Wait.cond]

variable [Fintype τ]

theorem wake_only {s : State τ χ α} {c : χ} {k : Cond} {wake : τ → Bool} {t : τ} (hl : s.legal c k wake)
    (hb : s.woken t = true ∨ s.blockedOn c k t = true)
    (halone : ∀ u, s.blockedOn c k u = true → u = t) : (s.wake c k wake).woken t = true := by
  rcases hb with hw | hb
  · simp [hw]
  · obtain ⟨u, hu, hch⟩ := hl ⟨t, hb⟩
    cases halone u hu
    simp [hb, hch]

variable [DecidableEq τ] {size : χ → Nat} {s s' : State τ χ α} {a : Action τ χ α}
  {l : Label τ χ α}

section
variable {t : τ} {o : Op χ} {m : Move α} {left : Channel τ α} {ch : Channel τ α}

theorem acted_stays (h : Acted s t o ch left m l s') : (s'.pc t).stays o.chan = m.stays o := by
  rw [acted_pc h, Function.update_self, next_stays (refused_stays s t o _), if_pos rfl]

theorem acted_here (h : Acted s t o ch left m l s') : s'.chan o.chan = left := by
  rw [acted_chan h, Function.update_self]

theorem acted_other (h : Acted s t o ch left m l s') {u : τ} (hu : u ≠ t) : s'.pc u = s.pc u := by
  rw [acted_pc h, Function.update_of_ne hu]

end

theorem stepped_handshake (hs : Shape size s) (h : Stepped s a l s') {c : χ}
    (hh : Handshake s c) : Handshake s' c := by
  have hf := stepped_frame h
  cases stepped_on h c with
  | quiet sync _ _ stays keeps =>
    exact hh.of_same sync (fun u o => by rw [stays]) fun u => keeps u .complete
  | critical t wake p o m action pc chan admitted outcome acted =>
    subst action chan
    have hst := acted_stays acted
    have hoth := fun u (hu : u ≠ t) => acted_other acted hu
    have hchan := acted_here acted
    have same (hsync : ((((s.chan o.chan).arrive o.dir p).after t o m)).sync = (s.chan o.chan).sync)
        (hp : p ≠ .wait .complete)
        (hn : ∀ o', (s'.pc t).stays o.chan ≠ some (.complete, o')) : Handshake s' o.chan := by
      have hbefore : ∀ o', (s.pc t).stays o.chan ≠ some (.complete, o') := by
        intro o'
        rw [pc]
        cases p with
        | wait w => cases w <;> simp_all [Pc.stays]
        | _ => simp [Pc.stays]
      refine hh.of_same (by rw [hchan, hsync]) (fun u o' => ?_) fun u o' hu hc => ?_
      · by_cases hut : u = t
        · subst hut
          exact iff_of_false (hn o') (hbefore o')
        · rw [hoth u hut]
      · have hut : u ≠ t := by
          rintro rfl
          exact hbefore o' (by simp [hu, Pc.stays, hc])
        exact ⟨hoth u hut, hf.woken u hut⟩
    have hcomp := fun hp : p = .wait .complete => outcome_complete (hp ▸ outcome)
    cases outcome with
    | publish enters stage =>
      rw [arrive_unbufStage] at stage
      have hn : ∀ u o', (s.pc u).stays o.chan ≠ some (.complete, o') := by
        cases hh with
        | free _ nobody => exact nobody
        | offered t' o' stage' => simp [stage] at stage'
        | met t' o' stage' => simp [stage] at stage'
      refine .offered t o ?_ hst (fun u o' hu => ?_) ?_ ?_
      · rw [hchan, after_unbufStage]
      · by_contra hut
        rw [hoth u hut] at hu
        exact hn u o' hu
      · rw [hchan, after_activeUnbufOp]
      · rw [hchan, after_unbufData]
    | exchange enters stage active =>
      rw [arrive_unbufStage] at stage
      cases hh with
      | free stage' => simp [stage] at stage'
      | met t' o' stage' => simp [stage] at stage'
      | offered t' o' stage' stays alone active' data =>
        have hne : t' ≠ t := by
          rintro rfl
          rw [pc] at stays
          rcases enters with ⟨rfl, -⟩ | ⟨rfl, -⟩ | rfl <;> simp [Pc.stays] at stays
        have hfree : (s.pc t').holds o.chan = false := by
          rw [← Bool.not_eq_true, ← hs.held]
          exact admitted_free admitted t' hne
        have hpc := stays_wait stays (.inr hfree)
        refine .met t' o' ?_ ?_ (stays_chan stays) (fun u o'' hu => ?_) ?_
        · rw [hchan, after_unbufStage]
        · rw [hoth t' hne, hpc]
        · by_cases hut : u = t
          · subst hut
            simp [hst, Move.stays] at hu
          · rw [hoth u hut] at hu
            exact alone u o'' hu
        · cases acted with
          | exchange wake' partner hp hl =>
            simp only [finish_woken, exchangeData_woken]
            refine wake_only (s := s.setChan o.chan _) hl ?_ fun u hb => ?_
            · cases hw : s.woken t' with
              | true => exact .inl hw
              | false => exact .inr (blockedOn_iff.mpr ⟨_, _, hpc, stays_chan stays, rfl, hw⟩)
            · obtain ⟨w, o'', hpc', hc, hk, -⟩ := blockedOn_iff.mp hb
              cases cond_complete.mp hk
              exact alone u o'' (by simp [show s.pc u = _ from hpc', Pc.stays, hc])
    | complete point =>
      subst point
      have hmine : (s.pc t).stays o.chan = some (.complete, o) := by simp [pc, Pc.stays]
      refine .free (by rw [hchan, after_unbufStage]) fun u o' hu => ?_
      by_cases hut : u = t
      · subst hut
        simp [hst, Move.stays] at hu
      · rw [hoth u hut] at hu
        cases hh with
        | free _ nobody => exact nobody u o' hu
        | offered t' o'' _ _ alone => exact hut ((alone u o' hu).trans (alone t o hmine).symm)
        | met t' o'' _ _ _ alone => exact hut ((alone u o' hu).trans (alone t o hmine).symm)
    | _ =>
      refine same ?_ (fun hp => by cases hcomp hp) fun o' => ?_
      · simp [sync, after_unbufStage, after_activeUnbufOp, after_unbufData]
      · simp [hst, Move.stays]

theorem stepped_queued (h : Stepped s a l s') {c : χ} (hq : Queued s c) : Queued s' c := by
  have hf := stepped_frame h
  cases stepped_on h c with
  | quiet sync _ _ stays keeps =>
    refine hq.of_same sync fun u o hu hw => ?_
    rw [stays] at hu
    have hkeep := (keeps u _ o (stays_wait hu (.inl (by simp))) (stays_chan hu)).2
    exact ⟨hu, by_contra fun hn => by simp [hkeep (by simpa using hn)] at hw⟩
  | critical t wake p o m action pc chan admitted outcome acted =>
    subst action chan
    have hst := acted_stays acted
    have hchan := acted_here acted
    have others (u : τ) (hu : u ≠ t) (o' : Op χ)
        (hs : (s'.pc u).stays o.chan = some (.rendezvous, o')) (hw : s'.woken u = false) :
        (s.chan o.chan).unbufStage ≠ 0 ∧
          ((s.chan o.chan).unbufStage = 1 → (s.chan o.chan).activeUnbufOp = some o'.dir) := by
      rw [acted_other acted hu] at hs
      exact hq u o' hs (by_contra fun hn => by simp [hf.woken u hu (by simpa using hn)] at hw)
    intro u o' hu hw
    rw [hchan, after_unbufStage, after_activeUnbufOp]
    by_cases hut : u = t
    · subst hut
      rw [hst] at hu
      cases outcome with
      | behind enters stage active =>
        cases hu
        exact ⟨stage, active⟩
      | _ => simp [Move.stays] at hu
    · have hother := others u hut o' hu hw
      cases outcome with
      | publish enters stage => exact absurd (by simpa using stage) hother.1
      | exchange => simp
      | complete =>
        rw [acted_other acted hut] at hu
        have hpc := stays_wait hu (.inl (by simp))
        cases acted with
        | complete =>
          simp [State.broadcast, State.blockedOn, hpc, Pc.waitsOn, stays_chan hu, Wait.cond] at hw
      | _ => simpa using hother

end OperatingSystems.Concurrency
