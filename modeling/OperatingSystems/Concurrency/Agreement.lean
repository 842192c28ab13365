import OperatingSystems.Concurrency.Rendezvous

namespace OperatingSystems.Concurrency
open Channel Transition

variable {τ χ α : Type}

-- no thread comes back from `pthread_cond_wait` on its own
def Action.prompted : Action τ χ α → Bool
  | .spurious _ => false
  | _ => true

def exchanged [DecidableEq χ] (c : χ) (s : State τ χ α) (t : τ) :
    Option (Op χ) → Status → List (Dir × α)
  | some o, .success => if o.chan = c then [(o.dir, s.data t o.index)] else []
  | _, _ => []

structure Agreement [DecidableEq τ] [DecidableEq χ] (c : χ)
    (tr : List (Event (State τ χ α) (Action τ χ α) (Label τ χ α))) : Prop where
  sides : ∀ e ∈ tr, ∀ x y v, e.seen = .paired c x y v →
    x.1 ≠ y.1 ∧ Side e.before c .send v x ∧ Side e.before c .recv v y
  once : (tally partiesOf tr c).Nodup
  answers : ∀ e ∈ tr, ∀ t n o st, e.seen = .returned t n o st →
    tally (pairings c) tr (t, n) = exchanged c e.before t o st ∧
      ∀ o' ∈ o, Requested e.before t o' (e.before.data t o'.index)

def Unroused (c : χ) (s : State τ χ α) : Prop :=
  (s.chan c).closedFlag = false → (s.chan c).unbufStage = 1 →
    ∀ t o, s.pc t = .enter (.wait .complete) o → o.chan = c → s.woken t = false

-- `channel_close` broadcasts after it has set the flag
def Announced (s : State τ χ α) : Prop :=
  ∀ t c k, (s.pc t).closing c k → (s.chan c).closedFlag = true

theorem announces_ne (d : Dir) : d.announces ≠ .rendezvousComplete := by
  cases d <;> simp [Dir.announces]

theorem blockedOn_miss [DecidableEq χ] {s : State τ χ α} {c : χ} {t : τ} {o : Op χ} {k : Cond}
    (hpc : s.pc t = .enter (.wait .complete) o) (hk : k = .rendezvousComplete → c ≠ o.chan) :
    s.blockedOn c k t = false := by
  by_contra hb
  obtain ⟨w, o', hpc', hc, hcond, -⟩ := blockedOn_iff.mp (by simpa using hb)
  cases hpc.symm.trans hpc'
  exact hk hcond.symm hc.symm

variable [DecidableEq τ] [DecidableEq χ] [Fintype τ] {size : χ → Nat} {s s' : State τ χ α}
  {a : Action τ χ α} {l : Label τ χ α} {c : χ}

theorem stepped_announced (ha : Announced s) (h : Stepped s a l s') : Announced s' := by
  have hf := stepped_frame h
  intro t c k hcl
  by_cases ht : t = a.actor
  · subst ht
    cases h with
    | close t wake c' hpc =>
      rw [State.goto_pc, Action.actor, Function.update_self] at hcl
      cases hcl
      simp
    | closeNotify t wake d c' hpc =>
      refine ha t c .rendezvousComplete ?_
      rw [hpc]
      cases d <;> simp [Pc.closing] at hcl ⊢ <;> first | exact hcl | exact hcl.1
    | closeBroadcast t wake k' c' hpc =>
      refine ha t c .rendezvousComplete ?_
      rw [hpc]
      cases k' <;> simp [Pc.closing, Cond.nextInClose] at hcl ⊢ <;>
        exact ⟨hcl.1, by decide⟩
    | call t k' hpc => exact absurd hcl (start_closing s t k' c k)
    | critical t wake p o m l s' hpc hadm hout hact =>
      rw [acted_pc hact, Action.actor, Function.update_self] at hcl
      exact absurd hcl (next_closing (refused_closing s t o c k) m)
    | spurious t w o hpc => exact ha t c k hcl
    | signal t wake o hpc =>
      rw [finish_pc, Action.actor, Function.update_self] at hcl
      exact absurd hcl (leave_closing o .success c k)
    | registered t wake i hpc | semWait t wake hpc =>
      rw [State.goto_pc, Action.actor, Function.update_self] at hcl
      exact absurd hcl (scanAt_closing s t 0 c k)
    | _ => simp [State.addSelect, State.removeSelect, Pc.closing] at hcl
  · rw [hf.pc t ht] at hcl
    exact hf.closedFlag c (ha t c k hcl)

theorem complete_woken {t : τ} {o : Op χ} (h : Stepped s a l s')
    (hpc : s.pc t = .enter (.wait .complete) o) (hsleep : s.woken t = false)
    (hw : s'.woken t = true) : a = .spurious t ∨
      s.pc a.actor = .closeBroadcast .rendezvousComplete o.chan ∨
      (s'.chan o.chan).unbufStage = 2 := by
  have asleep {s₁ : State τ χ α} (hs₁ : s₁.woken = s'.woken) (hno : s₁.woken t = false) : False := by
    rw [hs₁, hw] at hno
    cases hno
  cases h with
  | call u k => exact (asleep (start_woken s u k).symm hsleep).elim
  | spurious u w o' hpc' =>
    by_cases hu : t = u
    · exact .inl (by rw [hu])
    · exact (asleep rfl (by simpa [hu] using hsleep)).elim
  | critical u wake p o' m l s' hpc' hadm hout hact =>
    cases hact with
    | block w =>
      refine (asleep rfl ?_).elim
      by_cases hu : t = u <;> simp [hu, hsleep]
    | exchange wake partner hp hl =>
      by_cases hc : o'.chan = o.chan
      · exact .inr (.inr (by simp [hc, after_unbufStage]))
      · refine (asleep rfl ?_).elim
        have hmiss := fun ch => blockedOn_miss (s := s.setChan o'.chan ch) hpc
          (k := .rendezvousComplete) fun _ => hc
        simp [hsleep, hmiss]
    | complete =>
      refine (asleep rfl ?_).elim
      have hmiss := fun ch => blockedOn_miss (s := s.setChan o'.chan ch) (c := o'.chan) hpc
        (k := .rendezvousWait) fun he => by cases he
      simp [State.broadcast, hsleep, hmiss]
    | closedBuffered => exact (asleep (finish_woken _ u o' _).symm hsleep).elim
    | _ => exact (asleep rfl hsleep).elim
  | publish u wake o' hpc' =>
    refine (asleep rfl ?_).elim
    by_cases hu : t = u
    · simp [hu]
    · have hmiss := blockedOn_miss (s := s.notifySelect o'.dir.flip o'.chan) (c := o'.chan) hpc
        fun h => absurd h (announces_ne o'.dir)
      simp [hu, State.broadcast, hsleep, hmiss]
  | signal u wake o' hpc' =>
    refine (asleep rfl ?_).elim
    have hmiss := blockedOn_miss (c := o'.chan) hpc fun h => absurd h (announces_ne o'.dir)
    simp [hsleep, hmiss]
  | closeBroadcast u wake k c' hpc' =>
    by_cases hk : k = .rendezvousComplete ∧ c' = o.chan
    · obtain ⟨rfl, rfl⟩ := hk
      exact .inr (.inl hpc')
    · refine (asleep rfl ?_).elim
      have hmiss := blockedOn_miss hpc fun hr hc => hk ⟨hr, hc⟩
      simp [State.broadcast, hsleep, hmiss]
  | _ => exact (asleep rfl hsleep).elim

theorem stepped_unroused (hs : Sound size s) (ha : Announced s) (hu : Unroused c s)
    (hok : a.prompted = true) (h : Stepped s a l s') : Unroused c s' := by
  have hf := stepped_frame h
  intro hopen hstage t o hpc hc
  have hopen' : (s.chan c).closedFlag = false := by
    by_contra hclosed
    rw [hf.closedFlag c (by simpa using hclosed)] at hopen
    cases hopen
  by_cases ht : t = a.actor
  · cases a with
    | spurious u => cases hok
    | call u k =>
      cases h
      have hno := start_stays s u k c
      rw [ht] at hpc
      simp [show (s.start u k).pc u = _ from hpc, Pc.stays, hc] at hno
    | run u wake =>
      subst ht
      rcases stepped_sleeps h hpc with ⟨hpub, -⟩ | ⟨p, hpc', hout⟩
      · cases h with
        | publish u wake o' hpc' => simp
        | critical _ _ _ _ _ _ _ hpc' | notify _ _ _ hpc' | signal _ _ _ hpc'
        | closeAgain _ _ _ hpc' | close _ _ _ hpc' | closeNotify _ _ _ _ hpc'
        | closeBroadcast _ _ _ _ hpc' | register _ _ _ _ hpc' | registered _ _ _ hpc'
        | semWait _ _ hpc' | cleanup _ _ _ _ _ _ hpc' | cleaned _ _ _ _ _ hpc'
        | ret _ _ _ _ hpc' => cases hpub.symm.trans hpc'
      · cases hout
  · rw [hf.pc t ht] at hpc
    have hst : (s.pc t).stays c = some (.complete, o) := by simp [hpc, Pc.stays, hc]
    have hone : (s.chan c).unbufStage = 1 := by
      cases hs.handshake c with
      | free _ nobody => exact absurd hst (nobody t o)
      | offered _ _ stage => exact stage
      | met _ _ stage =>
        cases stepped_on h c with
        | quiet sync => exact (congrArg Prod.fst sync).symm.trans hstage
        | critical u wake p o' m action pc chan admitted outcome acted =>
          subst chan
          rw [acted_here acted, after_unbufStage, arrive_unbufStage, stage] at hstage
          cases outcome with
          | publish enters stage' => simp [stage] at stage'
          | _ => cases hstage
    by_contra hw
    have hsleep := hu hopen' hone t o hpc hc
    rcases complete_woken h hpc hsleep (by simpa using hw) with rfl | hcl | htwo
    · cases hok
    · have hclosed := ha a.actor c .rendezvousComplete (by rw [hcl]; exact ⟨hc, le_rfl⟩)
      rw [hopen'] at hclosed
      cases hclosed
    · rw [hc, hstage] at htwo
      cases htwo

theorem unroused_matched (hu : Unroused c s) (hopen : (s.chan c).closedFlag = false)
    (h : Stepped s a l s') : s.matched c a = true := by
  unfold State.matched
  split
  · rename_i t wake
    split
    · rename_i o hpc
      refine decide_eq_true fun hc hstage => ?_
      obtain ⟨m, hadm, -⟩ := stepped_enter h hpc
      have hasleep := hu hopen hstage t o hpc hc
      rw [hadm.1] at hasleep
      cases hasleep
    · rfl
  · rfl

theorem agreement_of_tally {tr : List (Event (State τ χ α) (Action τ χ α) (Label τ χ α))}
    (h : Run (system size) tr s) (ht : Tally (pairings c) (owedPair c) tr s)
    (hn : (tally partiesOf tr c).Nodup) : Agreement c tr := by
  refine ⟨fun e he x y v hseen => ?_, hn, fun e he t n o st hseen => ?_⟩
  · obtain ⟨tr₁, s', hr, hs⟩ := h.event e he
    have hs := stepped_of_step hs
    rw [hseen] at hs
    exact paired_sides (run_sound hr) hs
  · obtain ⟨tr₁, s', hr, -⟩ := h.event e he
    obtain ⟨-, htally, hpc⟩ := ht.past e he t n o st hseen
    refine ⟨?_, fun o' ho => ?_⟩
    · rw [htally]
      unfold owedPair
      rw [hpc]
      cases o with
      | none => rfl
      | some o => cases st <;> rfl
    · have hs := run_sound hr
      have hf := hs.shape.fits t
      cases ho
      rw [hpc] at hf
      exact requested hs hf

theorem rendezvous_agreement {tr : List (Event (State τ χ α) (Action τ χ α) (Label τ χ α))}
    (h : Run (system size) tr s) (hc : size c = 0)
    (hprompt : Meets (fun _ a => a.prompted = true) tr)
    (hopen : (s.chan c).closedFlag = false) :
    Agreement c tr ∧
      ((s.chan c).unbufStage ≠ 0 ↔ ∃ t o, (s.pc t).stays c = some (.complete, o)) ∧
      ∀ t u o o', (s.pc t).stays c = some (.complete, o) →
        (s.pc u).stays c = some (.complete, o') → t = u := by
  have hrun : Announced s ∧ Unroused c s ∧ ((s.chan c).closedFlag = false →
      Tally (pairings c) (owedPair c) tr s ∧ (tally partiesOf tr c).Nodup) := by
    refine h.invariant (P := fun tr s => Announced s ∧ Unroused c s ∧
      ((s.chan c).closedFlag = false → Tally (pairings c) (owedPair c) tr s ∧
        (tally partiesOf tr c).Nodup)) (fun s hi => ⟨?_, ?_, ?_⟩)
      (fun tr s a l s' hr ⟨ha, hu, ht⟩ hok hs => ?_) hprompt
    · intro t c k hcl
      rw [hi.pc t] at hcl
      exact hcl.elim
    · intro _ _ t o hpc
      rw [hi.pc t] at hpc
      cases hpc
    · exact fun _ => ⟨.start hi, by simp⟩
    · have hs := stepped_of_step hs
      have hsound := run_sound hr
      refine ⟨stepped_announced ha hs, stepped_unroused hsound ha hu hok hs, fun hopen' => ?_⟩
      have hbefore : (s.chan c).closedFlag = false := by
        by_contra hclosed
        rw [(stepped_frame hs).closedFlag c (by simpa using hclosed)] at hopen'
        cases hopen'
      obtain ⟨ht, hn⟩ := ht hbefore
      have ht' := stepped_pairs hsound hc ht (unroused_matched hu hbefore hs) hs
      exact ⟨ht', stepped_once hsound hs hn ht'⟩
  obtain ⟨-, -, ht⟩ := hrun
  obtain ⟨ht, hn⟩ := ht hopen
  refine ⟨agreement_of_tally h ht hn, ?_⟩
  cases (run_sound h).handshake c with
  | free stage nobody =>
    exact ⟨by simp [stage, nobody], fun t u o o' ht _ => absurd ht (nobody t o)⟩
  | offered t o stage stays alone =>
    exact ⟨by simpa [stage] using ⟨t, o, stays⟩,
      fun u v o₁ o₂ hu hv => (alone u o₁ hu).trans (alone v o₂ hv).symm⟩
  | met t o stage pc chan alone =>
    exact ⟨by simpa [stage] using ⟨t, o, by simp [pc, Pc.stays, chan]⟩,
      fun u v o₁ o₂ hu hv => (alone u o₁ hu).trans (alone v o₂ hv).symm⟩

theorem rendezvous_agreement_select :
    ∃ (tr : List (Event (State (Fin 2) Unit Nat) _ _)) (s : _), Run (system fun _ => 0) tr s ∧
      tally (pairings ()) tr (1, 1) = [(.recv, 7)] ∧ Agreement () tr := by
  let go (t : Fin 2) : Action (Fin 2) Unit Nat := .run t fun _ => true
  obtain ⟨tr, s, hr, -, hgot, hok, hopen⟩ := replay_run (M := system fun _ => 0)
    (initial_init (fun _ : Unit => 0) 0)
    [.call 1 (.select [⟨(), .recv, 0⟩]), go 1, go 1, go 1, .call 0 (.send () 7), go 0, go 0,
      go 1, go 1, go 1, go 1, go 1, go 0, go 0]
    (fun tr s => tally (pairings ()) tr (1, 1) = [(.recv, 7)] ∧
      Meets (fun _ a => a.prompted = true) tr ∧ (s.chan ()).closedFlag = false)
    (by decide +kernel)
  exact ⟨tr, s, hr, hgot, (rendezvous_agreement hr rfl hok hopen).1⟩

end OperatingSystems.Concurrency
