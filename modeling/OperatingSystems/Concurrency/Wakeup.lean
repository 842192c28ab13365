import Mathlib.Algebra.BigOperators.Group.Finset.Piecewise
import Mathlib.Algebra.Order.BigOperators.Group.Finset
import OperatingSystems.Concurrency.Fifo
import OperatingSystems.Concurrency.Rousing

namespace OperatingSystems.Concurrency
open Channel Transition

variable {τ χ α : Type}

def Channel.available (ch : Channel τ α) : Dir → Nat
  | .send => ch.buffer.capacity - ch.buffer.size
  | .recv => ch.buffer.size

theorem available_eq_zero {ch : Channel τ α} {d : Dir} : ch.available d = 0 ↔ ch.stuck d := by
  cases d with
  | send => exact Nat.sub_eq_zero_iff_le
  | recv => exact Iff.rfl

theorem transfer_available {ch ch' : Channel τ α} {d : Dir} {v w : α}
    (h : ch.transfer d v = some (ch'.buffer, w)) :
    ch'.available d + 1 = ch.available d ∧ ch'.available d.flip ≤ ch.available d.flip + 1 := by
  cases d with
  | send =>
    obtain ⟨hsize, hcap, hlt⟩ := Buffer.add_counts (transfer_send h).2
    simp only [available, Dir.flip]
    omega
  | recv =>
    obtain ⟨hsize, hcap⟩ := Buffer.remove_counts (transfer_recv h)
    simp only [available, Dir.flip]
    omega

theorem available_congr {ch ch' : Channel τ α} (h : ch'.buffer = ch.buffer) (d : Dir) :
    ch'.available d = ch.available d := by
  cases d <;> simp [available, h]

section
variable [DecidableEq χ]

-- a signal for `d` on its way, or a woken thread that has not looked at the buffer again
def State.credit (s : State τ χ α) (c : χ) (d : Dir) (t : τ) : Nat :=
  match s.pc t with
  | .notify o => if o.chan = c ∧ o.dir = d.flip then 1 else 0
  | .signal o => if o.chan = c ∧ o.dir = d.flip then 1 else 0
  | .enter (.wait .retry) o => if o.chan = c ∧ o.dir = d ∧ s.woken t = true then 1 else 0
  | _ => 0

def State.sleeping (s : State τ χ α) (c : χ) (d : Dir) (t : τ) : Prop :=
  ∃ o, s.pc t = .enter (.wait .retry) o ∧ o.chan = c ∧ o.dir = d ∧ s.woken t = false

def Covered [Fintype τ] (c : χ) (d : Dir) (s : State τ χ α) : Prop :=
  (s.chan c).closedFlag = false → (∃ t, s.sleeping c d t) →
    (s.chan c).available d ≤ ∑ t, s.credit c d t

end

theorem sum_exchange [Fintype τ] [DecidableEq τ] {f g : τ → Nat} {t : τ}
    (h : ∀ u, u ≠ t → f u ≤ g u) : (∑ u, f u) + g t ≤ (∑ u, g u) + f t := by
  have hle : ∑ u ∈ Finset.univ.erase t, f u ≤ ∑ u ∈ Finset.univ.erase t, g u :=
    Finset.sum_le_sum fun u hu => h u (Finset.ne_of_mem_erase hu)
  have hf := Finset.add_sum_erase Finset.univ f (Finset.mem_univ t)
  have hg := Finset.add_sum_erase Finset.univ g (Finset.mem_univ t)
  omega

theorem sum_handover [Fintype τ] [DecidableEq τ] {f g : τ → Nat} {t v : τ}
    (h : ∀ u, u ≠ t → f u ≤ g u) (hv : v ≠ t) (hgain : f v + 1 ≤ g v) (hloss : f t ≤ 1) :
    ∑ u, f u ≤ ∑ u, g u := by
  have hsum := sum_exchange (f := fun u => f u + if u = v then 1 else 0) (g := g) (t := t) (by
    intro u hu
    by_cases huv : u = v
    · simpa [huv] using hgain
    · simpa [huv] using h u hu)
  rw [Finset.sum_add_distrib, Finset.sum_ite_eq'] at hsum
  simp only [Finset.mem_univ, if_true, Ne.symm hv, if_false] at hsum
  omega

variable [DecidableEq χ] {size : χ → Nat} {s s' : State τ χ α} {c : χ} {d : Dir}

theorem credit_mono {t : τ} (hpc : s'.pc t = s.pc t) (hw : s.woken t = true → s'.woken t = true) :
    s.credit c d t ≤ s'.credit c d t := by
  unfold State.credit
  rw [hpc]
  split
  · rfl
  · rfl
  · split
    · rename_i h
      simp [h, hw]
    · simp
  · rfl

theorem credit_le_one (s : State τ χ α) (c : χ) (d : Dir) (t : τ) : s.credit c d t ≤ 1 := by
  unfold State.credit
  split <;> (try split) <;> omega

theorem sleeping_blocked {t : τ} : s.sleeping c d t → s.blockedOn c (d.flip).announces t = true := by
  rintro ⟨o, hpc, hc, rfl, hw⟩
  refine blockedOn_iff.mpr ⟨_, o, hpc, hc, ?_, hw⟩
  cases o.dir <;> rfl

theorem blocked_sleeping {t : τ} (hs : Shape size s) (hbuf : size c ≠ 0)
    (h : s.blockedOn c (d.flip).announces t = true) : s.sleeping c d t := by
  obtain ⟨w, o, hpc, hc, hk, hw⟩ := blockedOn_iff.mp h
  have hf := hs.fits t
  rw [hpc] at hf
  cases w with
  | retry =>
    refine ⟨o, hpc, hc, ?_, hw⟩
    cases ho : o.dir <;> cases d <;> simp_all [Wait.cond, Dir.flip, Dir.announces]
  | loop => exact absurd (hc ▸ hf.2.2) hbuf
  | rendezvous | complete => exact absurd (hc ▸ hf.2) hbuf

def Pc.announcing (c : χ) : Pc χ → Bool
  | .notify o => o.chan = c
  | .signal o => o.chan = c
  | .closeNotify _ c' => c' = c
  | .closeBroadcast _ c' => c' = c
  | _ => false

theorem closing_announcing {pc : Pc χ} {k : Cond} (h : pc.closing c k) :
    pc.announcing c = true := by
  cases pc with
  | closeNotify d c' => exact decide_eq_true h
  | closeBroadcast k' c' => exact decide_eq_true h.1
  | _ => cases h

theorem credit_announcing {t : τ} (hp : (s.pc t).announcing c = false)
    (hw : ∀ w o, s.pc t = .enter (.wait w) o → o.chan = c → s.woken t = false) :
    s.credit c d t = 0 := by
  unfold State.credit
  split
  · simp_all [Pc.announcing]
  · simp_all [Pc.announcing]
  · rename_i o hpc
    refine if_neg fun h => ?_
    rw [hw _ o hpc h.1] at h
    cases h.2.2
  · rfl

variable [DecidableEq τ] [Fintype τ] {a : Action τ χ α} {l : Label τ χ α}

theorem quiet_credit (hs : Shape size s) (hbuf : size c ≠ 0) (h : Stepped s a l s')
    (hkeeps : ∀ u w o, s.pc u = .enter (.wait w) o → o.chan = c →
      s'.pc u = s.pc u ∧ (s.woken u = true → s'.woken u = true))
    (hsleep : ∃ t, s.sleeping c d t) : ∑ t, s.credit c d t ≤ ∑ t, s'.credit c d t := by
  have hf := stepped_frame h
  have hothers : ∀ u, u ≠ a.actor → s.credit c d u ≤ s'.credit c d u :=
    fun u hu => credit_mono (hf.pc u hu) (hf.woken u hu)
  have hsum := sum_exchange hothers
  by_cases hle : s.credit c d a.actor ≤ s'.credit c d a.actor
  · omega
  · cases h with
    | signal t wake o hpc legal =>
      have hmine : o.chan = c ∧ o.dir = d.flip := by
        by_contra hno
        simp [State.credit, hpc, hno] at hle
      obtain ⟨rfl, hd⟩ := hmine
      obtain ⟨u, hu⟩ := hsleep
      rw [hd] at legal
      obtain ⟨v, hv, hch⟩ := legal ⟨u, sleeping_blocked hu⟩
      obtain ⟨o', hpc', hc', hd', hw'⟩ := blocked_sleeping hs hbuf hv
      have hne : v ≠ t := by
        rintro rfl
        simp [hpc] at hpc'
      refine sum_handover hothers hne ?_ (credit_le_one s _ d t)
      have hbefore : s.credit o.chan d v = 0 := by simp [State.credit, hpc', hw']
      rw [hbefore]
      simp [State.credit, hne, hpc', hc', hd', hd, hv, hch]
    | notify t wake o hpc => simp [State.credit, hpc] at hle
    | spurious t w o hpc => exact (hle (credit_mono rfl (by simp))).elim
    | critical t wake p o m l s' hpc =>
      by_cases hp : p = .wait .retry ∧ o.chan = c
      · obtain ⟨rfl, hc⟩ := hp
        obtain ⟨hpc', hw⟩ := hkeeps t .retry o hpc hc
        exact absurd (credit_mono hpc' hw) hle
      · have hzero : s.credit c d t = 0 := by
          cases p with
          | wait w => cases w <;> simp_all [State.credit]
          | _ => simp [State.credit, hpc]
        simp [hzero] at hle
    | call t k hpc | publish t wake o hpc | closeAgain t wake c' hpc | close t wake c' hpc
    | closeNotify t wake d' c' hpc | closeBroadcast t wake k c' hpc | register t wake i e hpc
    | registered t wake i hpc | semWait t wake hpc | cleanup t wake i o st e hpc
    | cleaned t wake i o st hpc | ret t wake o st hpc => simp [State.credit, hpc] at hle

theorem stepped_covered (hs : Shape size s) (hbuf : size c ≠ 0) (hc : Covered c d s)
    (h : Stepped s a l s') : Covered c d s' := by
  have hf := stepped_frame h
  rintro hopen' ⟨u, o, hpc, ho, hd, hw⟩
  have hopen : (s.chan c).closedFlag = false := by
    by_contra hno
    simp [hf.closedFlag c (by simpa using hno)] at hopen'
  have hstays : (s'.pc u).stays c = some (.retry, o) := by simp [hpc, Pc.stays, ho]
  cases stepped_on h c with
  | quiet sync buffer label stays keeps =>
    have hbefore : s.pc u = .enter (.wait .retry) o :=
      stays_wait (stays u ▸ hstays) (.inl (by simp))
    have hsleep : s.sleeping c d u := by
      refine ⟨o, hbefore, ho, hd, by_contra fun hn => ?_⟩
      simp [(keeps u _ o hbefore ho).2 (by simpa using hn)] at hw
    rw [available_congr buffer]
    exact (hc hopen ⟨u, hsleep⟩).trans (quiet_credit hs hbuf h keeps ⟨u, hsleep⟩)
  | critical t wake p o' m action pc chan admitted outcome acted =>
    subst action chan
    have hfit := hs.fits t
    rw [pc] at hfit
    have hbuffer := congrArg Channel.buffer (acted_here acted)
    rw [after_buffer] at hbuffer
    have hmine := acted_stays acted
    have hout := outcome_buffered hbuf (by simpa using hs.kind o'.chan) hfit.2 outcome
    by_cases hstuck : m = .block .retry ∧ o'.dir = d
    · obtain ⟨rfl, rfl⟩ := hstuck
      cases hout with
      | retry isOpen mode stuck =>
        rw [@available_congr _ _ ((s.chan o'.chan).arrive o'.dir p) _ hbuffer,
          available_eq_zero.mpr stuck]
        exact Nat.zero_le _
    · have hut : u ≠ t := by
        rintro rfl
        rw [hmine] at hstays
        cases hout <;> cases hstays
        exact hstuck ⟨rfl, hd⟩
      rw [acted_other acted hut] at hpc
      have hsleep : s.sleeping o'.chan d u := by
        refine ⟨o, hpc, ho, hd, by_contra fun hn => ?_⟩
        simp [hf.woken u hut (by simpa using hn)] at hw
      have hbefore := hc hopen ⟨u, hsleep⟩
      have hsum := sum_exchange fun u hu => credit_mono (c := o'.chan) (d := d)
        (acted_other acted hu) (hf.woken u hu)
      have hone := credit_le_one s o'.chan d t
      have hzero : o'.dir ≠ d ∨ p = .lock → s.credit o'.chan d t = 0 := by
        rintro (hne | rfl)
        · unfold State.credit
          rw [pc]
          cases p with
          | wait w => cases w <;> simp [hne]
          | _ => rfl
        · simp [State.credit, pc]
      cases hout with
      | shut closed => simp [hopen] at closed
      | transfer b w attempts done =>
        have hpc' : s'.pc t = .notify o' := by
          rw [acted_pc acted, Function.update_self]
          rfl
        rw [← show (s'.chan o'.chan).buffer = b from hbuffer] at done
        obtain ⟨hown, hother⟩ := transfer_available done
        rw [available_congr (arrive_buffer _ _ _)] at hown hother
        by_cases hdir : o'.dir = d
        · subst hdir
          omega
        · obtain rfl : o'.dir.flip = d := by rw [flip_of_ne hdir, flip_flip]
          have hafter : s'.credit o'.chan o'.dir.flip t = 1 := by
            simp [State.credit, hpc']
          have := hzero (.inl hdir)
          omega
      | refuse lock =>
        rw [available_congr (hbuffer.trans (arrive_buffer _ _ _))]
        have := hzero (.inr lock)
        omega
      | retry =>
        rw [available_congr (hbuffer.trans (arrive_buffer _ _ _))]
        have := hzero (.inl fun hdir => hstuck ⟨rfl, hdir⟩)
        omega

theorem stepped_retry_roused (hs : Shape size s) (hbuf : size c ≠ 0) (hr : Roused c .retry s)
    (h : Stepped s a l s') : Roused c .retry s' := by
  refine stepped_roused hr h fun t wake o ha hpc hc => ?_
  subst ha hc
  rcases stepped_sleeps h hpc with ⟨-, hw⟩ | ⟨p, hpc', hout⟩
  · cases hw
  · have hf := hs.fits t
    rw [hpc'] at hf
    cases outcome_buffered hbuf (by simpa using hs.kind o.chan) hf.2 hout with
    | retry isOpen => simpa using isOpen

theorem no_lost_wakeup {tr : List (Event (State τ χ α) (Action τ χ α) (Label τ χ α))}
    (h : Run (system size) tr s) (hbuf : size c ≠ 0)
    (settled : ∀ t, (s.pc t).announcing c = false)
    (ran : ∀ t w o, s.pc t = .enter (.wait w) o → o.chan = c → s.woken t = false) :
    (∀ t, s.blockedOn c .notEmpty t = true →
      (s.chan c).buffer.size = 0 ∧ (s.chan c).closedFlag = false) ∧
    (∀ t, s.blockedOn c .notFull t = true →
      (s.chan c).buffer.size = size c ∧ (s.chan c).closedFlag = false) := by
  have hinv : Shape size s ∧ Roused c .retry s ∧ (∀ d, Covered c d s) := by
    refine h.always (P := fun s => Shape size s ∧ Roused c .retry s ∧ (∀ d, Covered c d s))
      (fun s hi => ⟨init_shape hi, ?_, ?_⟩) fun s a l s' hs hstep => ?_
    · intro _ t o hpc
      simp [hi.pc t] at hpc
    · rintro d _ ⟨t, o, hpc, -⟩
      simp [hi.pc t] at hpc
    · have hstep := stepped_of_step hstep
      exact ⟨stepped_shape hs.1 hstep, stepped_retry_roused hs.1 hbuf hs.2.1 hstep,
        fun d => stepped_covered hs.1 hbuf (hs.2.2 d) hstep⟩
  obtain ⟨hs, hr, hcov⟩ := hinv
  have quiescent {d : Dir} {t : τ} (hb : s.sleeping c d t) :
      (s.chan c).stuck d ∧ (s.chan c).closedFlag = false := by
    have hopen : (s.chan c).closedFlag = false := by
      by_contra hno
      obtain ⟨o, hpc, hc, -, hw⟩ := hb
      obtain ⟨u, hu⟩ := hr (by simpa using hno) t o hpc hc hw
      simpa [settled u] using closing_announcing hu
    refine ⟨available_eq_zero.mp (Nat.le_zero.mp ?_), hopen⟩
    calc (s.chan c).available d ≤ ∑ u, s.credit c d u := hcov d hopen ⟨t, hb⟩
      _ = 0 := Finset.sum_eq_zero fun u _ => credit_announcing (settled u) (ran u)
  have hq : Queue size c tr s := run_queue h hbuf
  refine ⟨fun t hb => quiescent (blocked_sleeping (d := .recv) hs hbuf hb), fun t hb => ?_⟩
  obtain ⟨hfull, hopen⟩ := quiescent (blocked_sleeping (d := .send) hs hbuf hb)
  exact ⟨le_antisymm (hq.capacity ▸ hq.valid.size) (hq.capacity ▸ hfull), hopen⟩

theorem no_lost_wakeup_receivers :
    ∃ (tr : List (Event (State (Fin 3) Unit Nat) _ _)) (s : _), Run (system fun _ => 1) tr s ∧
      s.blockedOn () .notEmpty 1 = true ∧ (s.chan ()).buffer.size = 0 := by
  let go (t : Fin 3) : Action (Fin 3) Unit Nat := .run t fun u => u = 0
  obtain ⟨tr, s, hr, -, hb, hsettled, hran⟩ := replay_run (M := system fun _ => 1)
    (initial_init (fun _ : Unit => 1) 0)
    [.call 0 (.receive ()), .call 1 (.receive ()), go 0, go 1, .call 2 (.send () 7), go 2, go 2,
      go 2, go 0, go 0, go 0]
    (fun _ s => s.blockedOn () .notEmpty 1 = true ∧ (∀ t, (s.pc t).announcing () = false) ∧
      ∀ t, ((s.pc t).stays ()).isSome = true → s.woken t = false)
    (by decide +kernel)
  refine ⟨tr, s, hr, hb, ((no_lost_wakeup hr (by decide) hsettled ?_).1 1 hb).1⟩
  exact fun t w o hpc hc => hran t (by simp [hpc, Pc.stays])

end OperatingSystems.Concurrency
