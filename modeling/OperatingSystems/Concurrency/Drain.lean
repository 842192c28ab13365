import OperatingSystems.Concurrency.Agreement

namespace OperatingSystems.Concurrency
open Channel Transition

variable {τ χ α : Type} [DecidableEq χ]

def Channel.behind (ch : Channel τ α) (d : Dir) : Prop :=
  ch.unbufStage ≠ 0 ∧ (ch.unbufStage = 1 → ch.activeUnbufOp = some d)

instance (ch : Channel τ α) (d : Dir) : Decidable (ch.behind d) :=
  inferInstanceAs (Decidable (_ ∧ _))

-- nobody leaves `unbuffered_sync` without a partner, and nobody starts or joins a handshake in it
-- after the channel was closed
def State.orderly (c : χ) (s : State τ χ α) : Action τ χ α → Bool
  | .run t wake =>
    match s.pc t with
    | .enter (.wait .rendezvous) o =>
      decide (o.chan = c → (s.chan c).closedFlag = true → (s.chan c).behind o.dir)
    | .enter .recheck o =>
      decide (o.chan = c → (s.chan c).closedFlag = true → (s.chan c).ready o.dir →
        (s.chan c).behind o.dir)
    | _ => s.matched c (.run t wake)
  | _ => true

def Joined (c : χ) (tr : List (Event (State τ χ α) (Action τ χ α) (Label τ χ α))) : Prop :=
  ∀ e ∈ tr, ∀ t n o, e.seen = .returned t n (some o) .success → o.chan = c →
    ∃ d ∈ tr, (d.before.chan c).closedFlag = false ∧
      ∃ x y v, d.seen = .paired c x y v ∧ (x = (t, n) ∨ y = (t, n))

-- the broadcasts of `channel_close` are over and whoever they woke has run
def Settled (c : χ) (s : State τ χ α) : Prop :=
  (s.chan c).closedFlag = true ∧ (∀ u, ¬ (s.pc u).closing c .rendezvousComplete) ∧
    ∀ t w o, s.pc t = .enter (.wait w) o → o.chan = c → s.woken t = false

def Drained (c : χ) (s : State τ χ α) : Prop :=
  ∀ t w o, s.pc t = .enter (.wait w) o → o.chan = c → w ≠ .rendezvous ∧ w ≠ .complete

def Undisturbed (c : χ) (s : State τ χ α) : Prop :=
  (s.chan c).closedFlag = true → ∀ t o, s.pc t = .publish o → o.chan ≠ c

theorem orderly_matched {c : χ} {s : State τ χ α} {a : Action τ χ α} (h : s.orderly c a = true) :
    s.matched c a = true := by
  cases a with
  | run t wake =>
    simp only [State.orderly] at h
    split at h
    · simp [State.matched, *]
    · simp [State.matched, *]
    · exact h
  | _ => rfl

theorem enters_open {c : χ} {s : State τ χ α} {t : τ} {wake : τ → Bool} {p : Point} {o : Op χ}
    (hok : s.orderly c (.run t wake) = true) (hpc : s.pc t = .enter p o) (hc : o.chan = c)
    (henters : ((s.chan c).arrive o.dir p).Enters o p) (hgoes : ¬ (s.chan c).behind o.dir) :
    (s.chan c).closedFlag = false := by
  by_contra hclosed
  have hclosed : (s.chan c).closedFlag = true := by simpa using hclosed
  rcases henters with ⟨-, hopen, -⟩ | ⟨rfl, hready⟩ | rfl
  · simp [hclosed] at hopen
  · simp only [State.orderly, hpc] at hok
    exact hgoes (of_decide_eq_true hok hc hclosed hready)
  · simp only [State.orderly, hpc] at hok
    exact hgoes (of_decide_eq_true hok hc hclosed)

theorem settled_drained {size : χ → Nat} {s : State τ χ α} {c : χ} (hs : Sound size s)
    (hr : Roused c .complete s) (hu : Undisturbed c s)
    (hset : Settled c s) : Drained c s := by
  obtain ⟨hclosed, hdone, hrun⟩ := hset
  have hcomplete : ∀ t o, (s.pc t).stays c ≠ some (.complete, o) := by
    intro t o hst
    have hc := stays_chan hst
    have hpc : s.pc t = .enter (.wait .complete) o := by
      refine stays_wait hst (.inr (Bool.eq_false_iff.mpr fun hheld => ?_))
      cases hp : s.pc t with
      | publish o' =>
        rw [hp] at hheld
        exact hu hclosed t o' hp (of_decide_eq_true hheld)
      | enter p o' => cases p <;> simp_all [Pc.holds, Pc.stays]
      | _ => simp [hp, Pc.holds] at hheld
    obtain ⟨u, hcl⟩ := hr hclosed t o hpc hc (hrun t _ o hpc hc)
    exact hdone u hcl
  refine fun t w o hpc hc => ⟨?_, ?_⟩
  · rintro rfl
    have hbehind := hs.queued c t o (by simp [hpc, Pc.stays, hc]) (hrun t _ o hpc hc)
    cases hs.handshake c with
    | free stage => exact hbehind.1 stage
    | offered u o' _ stays => exact hcomplete u o' stays
    | met u o' _ pc chan => exact hcomplete u o' (by simp [pc, Pc.stays, chan])
  · rintro rfl
    exact hcomplete t o (by simp [hpc, Pc.stays, hc])

theorem agreement_joined [DecidableEq τ] {c : χ}
    {tr : List (Event (State τ χ α) (Action τ χ α) (Label τ χ α))}
    (ha : Agreement c tr) (hearly : ∀ e ∈ tr, ∀ x y v, e.seen = .paired c x y v →
      (e.before.chan c).closedFlag = false) : Joined c tr := by
  intro e he t n o hseen hc
  obtain ⟨htally, -⟩ := ha.answers e he t n _ _ hseen
  have hmem : (o.dir, e.before.data t o.index) ∈ tally (pairings c) tr (t, n) := by
    simp [htally, exchanged, hc]
  obtain ⟨l, hl, hw⟩ := List.mem_flatMap.mp hmem
  obtain ⟨d, hd, rfl⟩ := List.mem_map.mp hl
  obtain ⟨x, y, v, hpaired, hk⟩ := pairings_ne_nil (List.ne_nil_of_mem hw)
  exact ⟨d, hd, hearly d hd x y v hpaired, x, y, v, hpaired, hk⟩

variable [DecidableEq τ] [Fintype τ] {size : χ → Nat} {s s' : State τ χ α} {a : Action τ χ α}
  {l : Label τ χ α} {c : χ}

theorem stepped_publish {t : τ} {wake : τ → Bool} {o : Op χ} (h : Stepped s (.run t wake) l s')
    (hpc : s'.pc t = .publish o) : ∃ p, s.pc t = .enter p o ∧
      Outcome ((s.chan o.chan).arrive o.dir p) o (s.data t o.index) p .publish := by
  have hst : (s'.pc t).stays o.chan = some (.complete, o) := by simp [hpc, Pc.stays]
  cases h with
  | critical t wake p o' m l s' hpc' hadm hout hact =>
    rw [acted_pc hact, Function.update_self, next_stays (refused_stays s t o' _)] at hst
    split at hst
    · cases m with
      | publish =>
        cases hst
        exact ⟨p, hpc', hout⟩
      | block w =>
        rw [acted_pc hact, Function.update_self] at hpc
        cases hpc
      | _ => cases hst
    · cases hst
  | publish t wake o' hpc' =>
    rw [State.sleep_pc, Function.update_self] at hpc
    cases hpc
  | closeNotify t wake d c hpc' => cases d <;> simp [Pc.stays] at hst
  | closeBroadcast t wake k c hpc' => cases k <;> simp [Cond.nextInClose, Pc.stays] at hst
  | notify | closeAgain | close | register | cleanup | cleaned | ret =>
    simp [State.addSelect, State.removeSelect, Pc.stays] at hst
  | signal | registered | semWait => simp at hst

theorem stepped_undisturbed (hs : Shape size s) (hu : Undisturbed c s)
    (hok : s.orderly c a = true) (h : Stepped s a l s') : Undisturbed c s' := by
  have hf := stepped_frame h
  intro hclosed t o hpc hc
  by_cases hbefore : (s.chan c).closedFlag = true
  · by_cases ht : t = a.actor
    · cases a with
      | run u wake =>
        cases ht
        obtain ⟨p, hpc', hout⟩ := stepped_publish h hpc
        subst hc
        cases hout with
        | publish enters stage =>
          have hopen := enters_open hok hpc' rfl enters fun hb => hb.1 (by simpa using stage)
          rw [hopen] at hbefore
          cases hbefore
      | call u k =>
        cases h
        cases ht
        have hno := start_stays s u k c
        simp [show (s.start u k).pc u = _ from hpc, Pc.stays, hc] at hno
      | spurious u =>
        cases h
        cases ht
        exact hu hbefore u o hpc hc
    · rw [hf.pc t ht] at hpc
      exact hu hbefore t o hpc hc
  · obtain ⟨⟨-, hfree⟩, hclosing, -⟩ := stepped_closes h (by simpa using hbefore) hclosed
    by_cases ht : t = a.actor
    · rw [ht, hclosing] at hpc
      cases hpc
    · rw [hf.pc t ht] at hpc
      have hheld := (hs.held c t).mpr (by simp [hpc, Pc.holds, hc])
      rw [hfree] at hheld
      cases hheld

theorem stepped_complete_roused (hr : Roused c .complete s) (hu : Undisturbed c s)
    (h : Stepped s a l s') : Roused c .complete s' := by
  refine stepped_roused hr h fun t wake o ha hpc hc => ?_
  subst ha
  rcases stepped_sleeps h hpc with ⟨hpub, -⟩ | ⟨p, hpc', hout⟩
  · by_contra hclosed
    exact hu (by simpa using hclosed) t o hpub hc
  · cases hout

theorem paired_open {x y : τ × Nat} {v : α} (hok : s.orderly c a = true)
    (h : Stepped s a (.paired c x y v) s') : (s.chan c).closedFlag = false := by
  cases stepped_on h c with
  | quiet _ _ label => exact absurd rfl label
  | critical t wake p o m action pc chan admitted outcome acted =>
    subst action chan
    generalize hl : Label.paired o.chan x y v = l at acted
    cases acted with
    | exchange wake' partner =>
      cases outcome with
      | exchange enters stage active =>
        rw [arrive_unbufStage] at stage
        rw [arrive_activeUnbufOp] at active
        exact enters_open hok pc rfl enters fun hb => active (hb.2 stage)
    | _ => cases hl

theorem unbuffered_close {tr : List (Event (State τ χ α) (Action τ χ α) (Label τ χ α))}
    (h : Run (system size) tr s) (hc : size c = 0)
    (hok : Meets (fun s a => s.orderly c a = true) tr) :
    Joined c tr ∧ (Settled c s → Drained c s) := by
  have hpairs : Tally (pairings c) (owedPair c) tr s ∧ (tally partiesOf tr c).Nodup :=
    h.invariant (P := fun tr s => Tally (pairings c) (owedPair c) tr s ∧
      (tally partiesOf tr c).Nodup) (fun s hi => ⟨.start hi, by simp⟩)
      (fun tr s a l s' hr hp hok hs => by
        obtain ⟨ht, hn⟩ := hp
        have hs := stepped_of_step hs
        have ht' := stepped_pairs (run_sound hr) hc ht (orderly_matched hok) hs
        exact ⟨ht', stepped_once (run_sound hr) hs hn ht'⟩) hok
  have hquiet : Undisturbed c s ∧ Roused c .complete s := by
    refine h.invariant (P := fun _ s => Undisturbed c s ∧ Roused c .complete s)
      (fun s hi => ⟨?_, ?_⟩) (fun tr s a l s' hr hp hok hs => ?_) hok
    · intro _ t o hpc
      rw [hi.pc t] at hpc
      cases hpc
    · intro _ t o hpc
      rw [hi.pc t] at hpc
      cases hpc
    · obtain ⟨hu, hr'⟩ := hp
      have hs := stepped_of_step hs
      exact ⟨stepped_undisturbed (run_sound hr).shape hu hok hs, stepped_complete_roused hr' hu hs⟩
  refine ⟨agreement_joined (agreement_of_tally h hpairs.1 hpairs.2) fun e he x y v hseen => ?_,
    settled_drained (run_sound h) hquiet.2 hquiet.1⟩
  obtain ⟨tr₁, s', -, hs⟩ := h.event e he
  have hs := stepped_of_step hs
  rw [hseen] at hs
  exact paired_open (hok e he) hs

theorem unbuffered_close_paired : ∃ (tr : List (Event (State (Fin 2) Unit Nat) _ _)) (s : _),
    Run (system fun _ => 0) tr s ∧
      .returned 0 1 (some ⟨.blocking, .send, (), 0⟩) .success ∈ seen tr ∧ Joined () tr := by
  let go (t : Fin 2) : Action (Fin 2) Unit Nat := .run t fun _ => true
  obtain ⟨tr, s, hr, -, hret, hok⟩ := replay_run (M := system fun _ => 0)
    (initial_init (fun _ : Unit => 0) 0)
    [.call 0 (.send () 7), go 0, go 0, .call 1 (.receive ()), go 1, go 1, .call 1 (.close ()), go 1,
      go 0, go 0]
    (fun tr _ => .returned 0 1 (some ⟨.blocking, .send, (), 0⟩) .success ∈ seen tr ∧
      Meets (fun s a => s.orderly () a = true) tr)
    (by decide +kernel)
  exact ⟨tr, s, hr, hret, (unbuffered_close hr rfl hok).1⟩

theorem send_alone_after_close : ∃ (tr : List (Event (State (Fin 2) Unit Nat) _ _)) (s : _),
    Run (system fun _ => 0) tr s ∧
      .returned 0 1 (some ⟨.blocking, .send, (), 0⟩) .success ∈ seen tr ∧ ¬ Joined () tr := by
  let go (t : Fin 2) : Action (Fin 2) Unit Nat := .run t fun _ => true
  obtain ⟨tr, s, hr, -, hret, hnone⟩ := replay_run (M := system fun _ => 0)
    (initial_init (fun _ : Unit => 0) 0)
    [.call 0 (.send () 7), go 0, go 0, .call 1 (.close ()), go 1, go 1, go 1, go 1, go 1, go 1, go 1,
      go 0, go 0]
    (fun tr _ => .returned 0 1 (some ⟨.blocking, .send, (), 0⟩) .success ∈ seen tr ∧
      tally partiesOf tr () = [])
    (by decide +kernel)
  refine ⟨tr, s, hr, hret, fun hjoined => ?_⟩
  obtain ⟨e, he, hseen⟩ := List.mem_map.mp hret
  obtain ⟨d, hd, -, x, y, v, hpaired, -⟩ := hjoined e he 0 1 _ hseen rfl
  have hx : x ∈ tally partiesOf tr () :=
    List.mem_flatMap.mpr ⟨_, List.mem_map_of_mem hd, by simp [hpaired, partiesOf]⟩
  rw [hnone] at hx
  cases hx

end OperatingSystems.Concurrency
