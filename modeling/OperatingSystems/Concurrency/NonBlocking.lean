import OperatingSystems.Concurrency.Cells

namespace OperatingSystems.Concurrency
open Channel Transition

variable {τ χ α : Type} [DecidableEq χ]

-- the `while` is not entered, and a registered selector counts only beside an active partner
def State.prompt (c : χ) (s : State τ χ α) : Action τ χ α → Bool
  | .run t _ =>
    match s.pc t with
    | .enter .lock o =>
      decide (o.chan = c → o.mode = .nonblocking → (s.chan c).closedFlag = false →
        (s.chan c).isUnbuffered = true →
        ¬ (0 < (s.chan c).waiting o.dir.flip ∧ (s.chan c).unbufStage = 0 ∧
          ¬ 0 < ((s.chan c).selectors o.dir.flip).length))
    | .enter .recheck o =>
      decide (o.chan = c → (s.chan c).ready o.dir → (s.chan c).partnerActive o.dir)
    | _ => true
  | _ => true

def Prompt (c : χ) (s : State τ χ α) : Prop :=
  ∀ t w o, (s.pc t).stays c = some (w, o) → o.mode ≠ .nonblocking

variable [DecidableEq τ] [Fintype τ] {size : χ → Nat} {s s' : State τ χ α} {a : Action τ χ α}
  {l : Label τ χ α} {c : χ}

theorem stepped_prompt (hp : Prompt c s) (hok : s.prompt c a = true)
    (h : Stepped s a l s') : Prompt c s' := by
  cases stepped_on h c with
  | quiet _ _ _ stays =>
    intro t w o hst
    exact hp t w o (stays t ▸ hst)
  | critical t wake p o m action pc chan admitted outcome acted =>
    subst action chan
    intro u w o' hst hm
    by_cases hut : u = t
    · subst hut
      rw [acted_stays acted] at hst
      have waiting {w : Wait} (hp' : p = .wait w) : o.mode ≠ .nonblocking := by
        subst hp'
        exact hp u w o (by simp [pc, Pc.stays])
      simp only [State.prompt, pc] at hok
      cases outcome with
      | publish enters stage =>
        cases hst
        rcases enters with ⟨-, -, -, hmode | ⟨hmode, -⟩⟩ | ⟨rfl, hready⟩ | hwait
        · simp [hm] at hmode
        · simp [hm] at hmode
        · have hactive := of_decide_eq_true hok rfl hready
          exact absurd (hactive.1.symm.trans stage) (by decide)
        · exact waiting hwait hm
      | behind enters stage active =>
        cases hst
        rcases enters with ⟨-, -, -, hmode | ⟨hmode, -⟩⟩ | ⟨rfl, hready⟩ | hwait
        · simp [hm] at hmode
        · simp [hm] at hmode
        · exact partnerActive_behind (of_decide_eq_true hok rfl hready) active
        · exact waiting hwait hm
      | stall loops waits stage selectors =>
        cases hst
        rcases loops with ⟨rfl, hopen, hu, -⟩ | hwait
        · exact of_decide_eq_true hok rfl hm hopen hu ⟨waits, stage, selectors.not_gt⟩
        · exact waiting hwait hm
      | retry _ mode =>
        cases hst
        simp [hm] at mode
      | _ => cases hst
    · rw [acted_other acted hut] at hst
      exact hp u w o' hst hm

theorem hasty_waits (hs : Shape size s) (hh : Handshake s c) (hok : s.prompt c a = false)
    (h : Stepped s a l s') :
    ¬ Prompt c s' := by
  cases a with
  | call t k => cases hok
  | spurious t => cases hok
  | run t wake =>
    simp only [State.prompt] at hok
    split at hok
    · rename_i o hpc
      simp only [decide_eq_false_iff_not, Classical.not_imp, not_not] at hok
      obtain ⟨rfl, hm, hopen, hu, hwaits, hstage, hsel⟩ := hok
      obtain ⟨m, -, hout, hact⟩ := stepped_enter h hpc
      have hcommits {w : Wait} (hw : m.stays o = some (w, o)) : ¬ Prompt o.chan s' :=
        fun hp => hp t w o (by rw [acted_stays hact, hw]) hm
      cases hout with
      | stall => exact hcommits rfl
      | hold loops goesOn => exact absurd ⟨hwaits, hstage, hsel⟩ goesOn
      | shut _ closed => exact absurd (hopen.symm.trans closed) (by decide)
      | publish enters | exchange enters | behind enters => simp [Enters, hm] at enters
      | pass passes => simp [Passes, hm] at passes
      | transfer _ _ attempts | refuse attempts | closedRetry attempts | retry attempts =>
        rcases attempts with ⟨-, -, hbuf⟩ | hp
        · exact absurd (hu.symm.trans hbuf) (by decide)
        · cases hp
      | complete point => cases point
    · rename_i o hpc
      simp only [decide_eq_false_iff_not, Classical.not_imp] at hok
      obtain ⟨rfl, hready, hno⟩ := hok
      have hf := hs.fits t
      rw [hpc] at hf
      obtain ⟨m, -, hout, hact⟩ := stepped_enter h hpc
      have hcommits {w : Wait} (hw : m.stays o = some (w, o)) : ¬ Prompt o.chan s' :=
        fun hp => hp t w o (by rw [acted_stays hact, hw]) hf.2.1
      cases hout with
      | publish => exact hcommits rfl
      | behind => exact hcommits rfl
      | exchange enters stage active =>
        cases hh with
        | free stage' => exact absurd (stage.symm.trans stage') (by decide)
        | met _ _ stage' => exact absurd (stage.symm.trans stage') (by decide)
        | offered t' o' _ _ _ active' =>
          have hflip : o'.dir = o.dir.flip := flip_of_ne fun hd => active (hd ▸ active')
          exact absurd ⟨stage, hflip ▸ active'⟩ hno
      | pass passes => exact absurd hready passes.2
      | shut lock => cases lock
      | stall loops | hold loops => simp [Loops] at loops
      | transfer _ _ attempts | refuse attempts | closedRetry attempts | retry attempts =>
        simp [Attempts] at attempts
      | complete point => cases point
    · cases hok

theorem prompt_iff
    {tr : List (Event (State τ χ α) (Action τ χ α) (Label τ χ α))} (h : Run (system size) tr s) :
    ((∀ e ∈ tr, Prompt c e.before) ∧ Prompt c s) ↔ Meets (fun s a => s.prompt c a = true) tr := by
  have hall : Meets (fun _ _ => True) tr := fun _ _ => trivial
  refine h.visited_iff (P := Prompt c) (I := fun s => Sound size s ∧ Prompt c s)
    (fun s hi => ⟨init_sound hi, ?_⟩) (fun _ hs => hs.2)
    (fun s a o s' hs _ hok hstep => ?_) (fun s a o s' hs _ hok hstep => ?_) hall
  · intro t w o hst
    simp [hi.pc t, Pc.stays] at hst
  · have hstep := stepped_of_step hstep
    exact ⟨stepped_sound hs.1 hstep, stepped_prompt hs.2 hok hstep⟩
  · exact hasty_waits hs.1.shape (hs.1.handshake c) (by simpa using hok) (stepped_of_step hstep)

theorem non_blocking_never_waits
    {tr : List (Event (State τ χ α) (Action τ χ α) (Label τ χ α))} (h : Run (system size) tr s)
    (hok : Meets (fun s a => s.prompt c a = true) tr) (t : τ) (k : Cond)
    (hb : s.blockedOn c k t = true) :
    ∃ w o, s.pc t = .enter (.wait w) o ∧ o.chan = c ∧ o.mode ≠ .nonblocking := by
  have hp : Prompt c s := ((prompt_iff h).mpr hok).2
  obtain ⟨w, o, hpc, hc, -, -⟩ := blockedOn_iff.mp hb
  exact ⟨w, o, hpc, hc, hp t w o (by simp [hpc, Pc.stays, hc])⟩

theorem non_blocking_never_waits_receiver :
    ∃ (tr : List (Event (State (Fin 2) Unit Nat) _ _)) (s : _), Run (system fun _ => 0) tr s ∧
      .returned 1 1 (some ⟨.nonblocking, .send, (), 0⟩) .success ∈ seen tr ∧
      ∃ w o, s.pc 0 = .enter (.wait w) o ∧ o.chan = () ∧ o.mode ≠ .nonblocking := by
  let go (t : Fin 2) : Action (Fin 2) Unit Nat := .run t fun _ => true
  obtain ⟨tr, s, hr, -, hret, hok, hb⟩ := replay_run (M := system fun _ => 0)
    (initial_init (fun _ : Unit => 0) 0)
    [.call 0 (.receive ()), go 0, go 0, .call 1 (.nonBlockingSend () 7), go 1, go 1, go 1, go 0,
      go 0, .call 0 (.receive ()), go 0, go 0]
    (fun tr s => .returned 1 1 (some ⟨.nonblocking, .send, (), 0⟩) .success ∈ seen tr ∧
      Meets (fun s a => s.prompt () a = true) tr ∧ s.blockedOn () .rendezvousComplete 0 = true)
    (by decide +kernel)
  exact ⟨tr, s, hr, hret, non_blocking_never_waits hr hok 0 _ hb⟩

theorem non_blocking_send_waits :
    ∃ (tr : List (Event (State (Fin 2) Unit Nat) _ _)) (s : _), Run (system fun _ => 0) tr s ∧
      s.pc 1 = .enter (.wait .complete) ⟨.nonblocking, .send, (), 0⟩ ∧
      s.blockedOn () .rendezvousComplete 1 = true := by
  let go (t : Fin 2) : Action (Fin 2) Unit Nat := .run t fun _ => true
  obtain ⟨tr, s, hr, -, hpc, hb⟩ := replay_run (M := system fun _ => 0)
    (initial_init (fun _ : Unit => 0) 0)
    [.call 0 (.select [⟨(), .recv, 0⟩]), go 0, go 0, go 0, .call 1 (.nonBlockingSend () 7), go 1,
      go 1, go 1]
    (fun _ s => s.pc 1 = .enter (.wait .complete) ⟨.nonblocking, .send, (), 0⟩ ∧
      s.blockedOn () .rendezvousComplete 1 = true)
    (by decide +kernel)
  exact ⟨tr, s, hr, hpc, hb⟩

end OperatingSystems.Concurrency
