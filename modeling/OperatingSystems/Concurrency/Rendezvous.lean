import OperatingSystems.Concurrency.Fifo
import OperatingSystems.Concurrency.Rousing

namespace OperatingSystems.Concurrency
open Channel Transition

variable {τ χ α : Type} [DecidableEq χ]

def partiesOf : Label τ χ α → χ → List (τ × Nat)
  | .paired c' a b _, c => if c' = c then [a, b] else []
  | _, _ => []

def owedPair (c : χ) (s : State τ χ α) (t : τ) : List (Dir × α) :=
  match (s.pc t).done with
  | some (o, .success) => if o.chan = c then [(o.dir, s.data t o.index)] else []
  | some _ => []
  | none =>
    match (s.pc t).stays c with
    | some (.complete, o) =>
      if (s.chan c).unbufStage = 2 then [(o.dir, s.data t o.index)] else []
    | _ => []

-- nobody leaves the wait for completion before the partner has come
def State.matched (c : χ) (s : State τ χ α) : Action τ χ α → Bool
  | .run t _ =>
    match s.pc t with
    | .enter (.wait .complete) o => decide (o.chan = c → (s.chan c).unbufStage ≠ 1)
    | _ => true
  | _ => true

def Move.silent : Move α → Prop
  | .exchange => False
  | .transfer _ _ => False
  | _ => True

theorem owedPair_congr {c : χ} {s s' : State τ χ α} {t : τ}
    (hdone : (s'.pc t).done = (s.pc t).done) (hstays : (s'.pc t).stays c = (s.pc t).stays c)
    (hstage : ∀ o, (s.pc t).stays c = some (.complete, o) →
      ((s'.chan c).unbufStage = 2 ↔ (s.chan c).unbufStage = 2))
    (hdata : ∀ i, s'.data t i = s.data t i ∨ ∃ o, (s.pc t).op = some o ∧ o.chan ≠ c) :
    owedPair c s' t = owedPair c s t := by
  unfold owedPair
  rw [hdone, hstays]
  split
  · rename_i o hd
    rcases hdata o.index with hi | ⟨o', ho', -⟩
    · rw [hi]
    · rw [done_op hd] at ho'
      cases ho'
  · rfl
  · split
    · rename_i o hst
      rcases hdata o.index with hi | ⟨o', ho', hne⟩
      · simp only [hi, hstage o hst]
      · cases (stays_op hst).symm.trans ho'
        exact absurd (stays_chan hst) hne
    · rfl

theorem owedPair_length (c : χ) (s : State τ χ α) (t : τ) : (owedPair c s t).length ≤ 1 := by
  unfold owedPair
  split
  · split <;> simp
  · simp
  · split
    · split <;> simp
    · simp

def Side (s : State τ χ α) (c : χ) (d : Dir) (v : α) (k : τ × Nat) : Prop :=
  k.2 = s.calls k.1 ∧ ∃ o, (s.pc k.1).op = some o ∧ o.chan = c ∧ o.dir = d ∧ Requested s k.1 o v

theorem Side.of_op {size : χ → Nat} {s : State τ χ α} {c : χ} {t : τ} {o : Op χ} {d : Dir}
    {v : α} (hs : Sound size s)
    (ho : (s.pc t).op = some o) (hc : o.chan = c) (hd : o.dir = d)
    (hv : d = .send → v = s.data t o.index) : Side s c d v (t, s.calls t) := by
  obtain ⟨e, he, hec, hed, hev⟩ := requested hs (op_owned (hs.shape.fits t) ho)
  exact ⟨rfl, o, ho, hc, hd, e, he, hec, hed, fun h => (hv (hd ▸ h)).trans (hev h)⟩

variable [DecidableEq τ]

def pairings (c : χ) : Label τ χ α → τ × Nat → List (Dir × α)
  | .paired c' a b v, k =>
    if c' = c then
      (if a = k then [(.send, v)] else []) ++ (if b = k then [(.recv, v)] else [])
    else []
  | _, _ => []

theorem pairings_chan {l : Label τ χ α} {c : χ} (h : l.chan ≠ some c) (k : τ × Nat) :
    pairings c l k = [] := by
  cases l with
  | paired c' a b v =>
    refine if_neg fun he => h ?_
    rw [he]
    rfl
  | _ => rfl

theorem pairings_ne_nil {l : Label τ χ α} {c : χ} {k : τ × Nat} (h : pairings c l k ≠ []) :
    ∃ x y v, l = .paired c x y v ∧ (x = k ∨ y = k) := by
  cases l with
  | paired c' x y v =>
    by_cases hc : c' = c
    · subst hc
      refine ⟨x, y, v, rfl, ?_⟩
      by_contra hno
      obtain ⟨hx, hy⟩ := not_or.mp hno
      simp [pairings, hx, hy] at h
    · simp [pairings, hc] at h
  | _ => exact absurd rfl h

theorem partiesOf_count (l : Label τ χ α) (c : χ) (k : τ × Nat) :
    (partiesOf l c).count k = (pairings c l k).length := by
  cases l with
  | paired c' a b v =>
    by_cases hc : c' = c
    · simp only [partiesOf, pairings, hc, if_true, List.count_cons, List.count_nil, beq_iff_eq]
      split <;> split <;> rfl
    · simp [partiesOf, pairings, hc]
  | _ => rfl

theorem parties_count (tr : List (Event (State τ χ α) (Action τ χ α) (Label τ χ α))) (c : χ)
    (k : τ × Nat) : (tally partiesOf tr c).count k = (tally (pairings c) tr k).length := by
  simp only [tally, List.count_flatMap, List.length_flatMap]
  exact congrArg List.sum (List.map_congr_left fun l _ => partiesOf_count l c k)

variable {size : χ → Nat} {s s' : State τ χ α}

theorem exchange_owes {t : τ} {o o' : Op χ} (left : Channel τ α) {partner : τ × Nat}
    (wake : τ → Bool) (hne : partner.1 ≠ t) (hi : o'.index = partner.2) (hd : o'.dir = o.dir.flip) :
    let s' := (((s.setChan o.chan left).wake o.chan .rendezvousComplete wake).exchangeData t o
      partner).finish t o .success
    pairings o.chan (s.exchangeLabel t o partner) (t, s.calls t) =
        [(o.dir, s'.data t o.index)] ∧
      pairings o.chan (s.exchangeLabel t o partner) (partner.1, s.calls partner.1) =
        [(o'.dir, s'.data partner.1 o'.index)] ∧
      ∀ k, k ≠ (t, s.calls t) → k ≠ (partner.1, s.calls partner.1) →
        pairings o.chan (s.exchangeLabel t o partner) k = [] := by
  unfold State.exchangeLabel State.exchangeData
  refine ⟨?_, ?_, fun k ht hp => ?_⟩
  · cases ho : o.dir <;> simp [pairings, setData_data, hne, Ne.symm hne]
  · cases ho : o.dir <;> simp [pairings, setData_data, hne, Ne.symm hne, hi, hd, ho, Dir.flip]
  · cases ho : o.dir <;> simp [pairings, Ne.symm ht, Ne.symm hp]

variable [Fintype τ] {a : Action τ χ α} {l : Label τ χ α} {c : χ}

section
variable {t : τ} {o : Op χ} {ch left : Channel τ α} {m : Move α}

theorem acted_pairings (h : Acted s t o ch left m l s') (hm : m.silent) (k : τ × Nat) :
    pairings c l k = [] := by
  cases h with
  | exchange => exact hm.elim
  | _ => rfl

theorem acted_data (h : Acted s t o ch left m l s') (hm : m.silent) : s'.data = s.data := by
  cases h with
  | exchange => exact hm.elim
  | transfer => exact hm.elim
  | _ => simp [State.broadcast]

end

theorem acted_owes {t : τ} {p : Point} {o : Op χ} {m : Move α} (hh : Handshake s o.chan)
    (hpc : s.pc t = .enter p o) (hok : p = .wait .complete → (s.chan o.chan).unbufStage ≠ 1)
    (hm : m.silent)
    (hout : Outcome ((s.chan o.chan).arrive o.dir p) o (s.data t o.index) p m)
    (hact : Acted s t o ((s.chan o.chan).arrive o.dir p)
      (((s.chan o.chan).arrive o.dir p).after t o m) m l s') (u : τ) :
    owedPair o.chan s' u = owedPair o.chan s u := by
  have hdata := acted_data hact hm
  have hstage := congrArg Channel.unbufStage (acted_here hact)
  rw [after_unbufStage, arrive_unbufStage] at hstage
  have hcomp := fun hp : p = .wait .complete => outcome_complete (hp ▸ hout)
  by_cases hut : u = t
  · subst hut
    have hnone : p ≠ .wait .complete → owedPair o.chan s u = [] := by
      intro hp
      unfold owedPair
      rw [hpc]
      cases p with
      | wait w => cases w <;> simp_all [Pc.done, Pc.stays]
      | _ => rfl
    have hdone := acted_done hact
    have hstays := acted_stays hact
    unfold owedPair at hnone ⊢
    rw [hdone, hstays, hdata, hstage]
    cases hout with
    | exchange => exact hm.elim
    | transfer => exact hm.elim
    | complete point =>
      subst point
      have hmine : (s.pc u).stays o.chan = some (.complete, o) := by simp [hpc, Pc.stays]
      have htwo : (s.chan o.chan).unbufStage = 2 := by
        cases hh with
        | free _ nobody => exact absurd hmine (nobody u o)
        | offered _ _ stage => exact absurd stage (hok rfl)
        | met _ _ stage => exact stage
      simp [Move.done, hmine, htwo, show (s.pc u).done = none by rw [hpc]; rfl]
    | pass | refuse =>
      rw [hnone fun hp => by cases hcomp hp]
      by_cases hmode : o.mode = .select <;> simp [Move.done, Move.stays, hmode]
    | _ =>
      rw [hnone fun hp => by cases hcomp hp]
      rfl
  · refine owedPair_congr (by rw [acted_other hact hut]) (by rw [acted_other hact hut])
      (fun o' hst => ?_) fun i => .inl (by rw [hdata])
    cases hout with
    | exchange => exact hm.elim
    | publish enters stage =>
      cases hh with
      | free _ nobody => exact absurd hst (nobody u o')
      | offered _ _ stage' => simp [stage'] at stage
      | met _ _ stage' => simp [stage'] at stage
    | complete point =>
      subst point
      have hmine : (s.pc t).stays o.chan = some (.complete, o) := by simp [hpc, Pc.stays]
      cases hh with
      | free _ nobody => exact absurd hst (nobody u o')
      | offered t' _ _ _ alone => exact absurd ((alone u o' hst).trans (alone t o hmine).symm) hut
      | met t' _ _ _ _ alone => exact absurd ((alone u o' hst).trans (alone t o hmine).symm) hut
    | _ => rw [hstage]

theorem exchange_tallied {t : τ} {p : Point} {o : Op χ} (hh : Handshake s o.chan)
    (hpc : s.pc t = .enter p o)
    (hout : Outcome ((s.chan o.chan).arrive o.dir p) o (s.data t o.index) p .exchange)
    (hact : Acted s t o ((s.chan o.chan).arrive o.dir p)
      (((s.chan o.chan).arrive o.dir p).after t o .exchange) .exchange l s') (u : τ) :
    owedPair o.chan s' u = owedPair o.chan s u ++ pairings o.chan l (u, s.calls u) := by
  have hdone := acted_done hact
  have hstage := congrArg Channel.unbufStage (acted_here hact)
  have hother := fun u (hu : u ≠ t) => acted_other hact hu
  rw [after_unbufStage] at hstage
  cases hout with
  | exchange enters stage active =>
    have hnone : ∀ o', (s.pc t).stays o.chan ≠ some (.complete, o') := by
      intro o' hst
      rw [hpc] at hst
      rcases enters with ⟨rfl, -⟩ | ⟨rfl, -⟩ | rfl <;> simp [Pc.stays] at hst
    rw [arrive_unbufStage] at stage
    rw [arrive_activeUnbufOp] at active
    cases hact with
    | exchange wake partner hp hl =>
      rw [arrive_unbufData] at hp
      obtain ⟨o', hst, hi, hd⟩ := exchange_partner hh stage active hp
      have hne : partner.1 ≠ t := by
        intro he
        exact hnone o' (he ▸ hst)
      have halone : ∀ u o'', (s.pc u).stays o.chan = some (.complete, o'') → u = partner.1 := by
        cases hh with
        | free _ nobody => exact absurd hst (nobody _ _)
        | offered _ _ _ _ alone => exact fun u o'' hu => (alone u o'' hu).trans (alone _ _ hst).symm
        | met _ _ _ _ _ alone => exact fun u o'' hu => (alone u o'' hu).trans (alone _ _ hst).symm
      obtain ⟨hmine, htheirs, hothers⟩ := exchange_owes (s := s)
        (((s.chan o.chan).arrive o.dir p).after t o .exchange) wake hne hi hd
      by_cases hut : u = t
      · subst hut
        have hempty : owedPair o.chan s u = [] := by
          unfold owedPair
          rw [hpc]
          split
          · rename_i hd
            cases hd
          · rfl
          · split
            · rename_i o'' hst'
              exact absurd (hpc ▸ hst') (hnone o'')
            · rfl
        rw [hempty, List.nil_append, hmine]
        unfold owedPair
        rw [hdone]
        simp [Move.done]
      · by_cases hup : u = partner.1
        · subst hup
          have hnone := op_done (stays_op hst)
          rw [htheirs]
          unfold owedPair
          rw [hother _ hut, hnone, hst, hstage, stage]
          simp
        · rw [hothers (u, s.calls u) (by simp [hut]) (by simp [hup]), List.append_nil]
          refine owedPair_congr (by rw [hother u hut]) (by rw [hother u hut])
            (fun o'' hu => absurd (halone u o'' hu) hup) fun i => .inl ?_
          unfold State.exchangeData
          cases o.dir <;> simp [setData_data, hut, hup]

theorem paired_sides {x y : τ × Nat} {v : α} (hs : Sound size s)
    (h : Stepped s a (.paired c x y v) s') :
    x.1 ≠ y.1 ∧ Side s c .send v x ∧ Side s c .recv v y := by
  have hp := stepped_progress h
  generalize a.actor = t, hl : Label.paired c x y v = l at hp
  cases hp with
  | called k hpc => cases hl
  | returned wake o st hpc => cases hl
  | inner a l s' hpc hpc' hdone hlabel => rcases hlabel with rfl | ⟨c', rfl⟩ <;> cases hl
  | critical wake p o m l s' hpc hadm hout hact =>
    cases hact with
    | exchange wake partner hp hlegal =>
      cases hout with
      | exchange enters stage active =>
        rw [arrive_unbufStage] at stage
        rw [arrive_activeUnbufOp] at active
        rw [arrive_unbufData] at hp
        obtain ⟨o', hst, hi, hd⟩ := exchange_partner (hs.handshake _) stage active hp
        have hne : partner.1 ≠ t := by
          intro he
          rw [he, hpc] at hst
          rcases enters with ⟨rfl, -⟩ | ⟨rfl, -⟩ | rfl <;> simp [Pc.stays] at hst
        have hmine : (s.pc t).op = some o := by rw [hpc]; rfl
        have htheirs := stays_op hst
        unfold State.exchangeLabel at hl
        cases hod : o.dir with
        | send =>
          simp only [hod] at hl
          cases hl
          exact ⟨hne.symm, .of_op hs hmine rfl hod fun _ => rfl,
            .of_op hs htheirs (stays_chan hst) (by simp [hd, hod, Dir.flip])
              fun he => by cases he⟩
        | recv =>
          simp only [hod] at hl
          cases hl
          exact ⟨hne, .of_op hs htheirs (stays_chan hst) (by simp [hd, hod, Dir.flip])
            (fun _ => by rw [hi]), .of_op hs hmine rfl hod fun he => by cases he⟩
    | _ => cases hl

theorem stepped_touches {t : τ} {n : Nat} (hs : Sound size s) (h : Stepped s a l s')
    (hw : pairings c l (t, n) ≠ []) : n = s.calls t ∧ s.pc t ≠ .idle ∧ s'.pc t ≠ .idle := by
  obtain ⟨x, y, v, rfl, hk⟩ := pairings_ne_nil hw
  obtain ⟨-, hx, hy⟩ := paired_sides hs h
  have hside : n = s.calls t ∧ s.pc t ≠ .idle := by
    rcases hk with rfl | rfl
    · obtain ⟨hn, o, ho, -⟩ := hx
      exact ⟨hn, fun hidle => by simp [show s.pc t = _ from hidle, Pc.op] at ho⟩
    · obtain ⟨hn, o, ho, -⟩ := hy
      exact ⟨hn, fun hidle => by simp [show s.pc t = _ from hidle, Pc.op] at ho⟩
  refine ⟨hside.1, hside.2, fun hidle => ?_⟩
  obtain ⟨o, st, hl⟩ := stepped_to_idle h hside.2 hidle
  cases hl

theorem owedPair_elsewhere {u : τ} (hs : Sound size s) (h : Stepped s a l s')
    (helse : ∀ t wake p o, a = .run t wake → s.pc t = .enter p o → o.chan ≠ c)
    (hu : s.pc u ≠ .idle) (hu' : s'.pc u ≠ .idle) : owedPair c s' u = owedPair c s u := by
  cases stepped_on h c with
  | critical t wake p o m action pc chan => exact absurd chan (helse t wake p o action pc)
  | quiet sync buffer label stays keeps =>
    have hcall : ∀ k, a ≠ .call u k := by
      rintro k rfl
      cases h with
      | call _ _ hidle => exact hu hidle
    have hstage : (s'.chan c).unbufStage = (s.chan c).unbufStage := congrArg Prod.fst sync
    have same (hdone : (s'.pc u).done = (s.pc u).done) : owedPair c s' u = owedPair c s u := by
      refine owedPair_congr hdone (stays u) (fun _ _ => by rw [hstage]) fun i => ?_
      rcases stepped_cell hs.handshake h hcall i with hi | ⟨o, ho, -, -, hl⟩
      · exact .inl hi
      · exact .inr ⟨o, ho, fun hc => label (hc ▸ hl)⟩
    by_cases hua : u = a.actor
    · have hp := stepped_progress h
      rw [← hua] at hp
      cases hp with
      | called k hpc => exact absurd hpc hu
      | returned wake o st hpc => simp at hu'
      | inner a l s' hpc hpc' hdone => exact same hdone
      | critical wake p o m l s' hpc hadm hout hact =>
        have hne := helse u wake p o rfl hpc
        have hnone : (s.pc u).stays c = none := by
          rw [hpc]
          cases p <;> simp [Pc.stays, hne]
        unfold owedPair
        rw [acted_done hact, stays u, hnone, show (s.pc u).done = none by rw [hpc]; rfl]
        cases m with
        | refuse => by_cases hm : o.mode = .select <;> simp [Move.done, hm]
        | transfer | exchange | complete => simp [Move.done, hne]
        | _ => rfl
    · exact same (by rw [(stepped_frame h).pc u hua])

theorem stepped_pairs {tr : List (Event (State τ χ α) (Action τ χ α) (Label τ χ α))}
    (hs : Sound size s) (hc : size c = 0)
    (ht : Tally (pairings c) (owedPair c) tr s) (hok : s.matched c a = true)
    (h : Stepped s a l s') : Tally (pairings c) (owedPair c) (tr ++ [⟨s, a, l⟩]) s' := by
  have hf := stepped_frame h
  have touches := fun t n => stepped_touches (c := c) (t := t) (n := n) hs h
  have hopens (t : τ) (hpc : s.pc t = .idle) (hpc' : s'.pc t ≠ .idle) : owedPair c s' t = [] := by
    have hp := stepped_progress h
    by_cases ht : t = a.actor
    · rw [← ht] at hp
      cases hp with
      | called k _ => simp [owedPair, start_done]
      | returned wake o st hret => simp [hret] at hpc
      | critical wake p o m l s' henter => simp [henter] at hpc
      | inner a l s' hne => exact absurd hpc hne
    · rw [hf.pc t ht] at hpc'
      exact absurd hpc hpc'
  by_cases helse : ∃ t wake p o, a = .run t wake ∧ s.pc t = .enter p o ∧ o.chan = c
  · obtain ⟨t, wake, p, o, rfl, hpc, rfl⟩ := helse
    obtain ⟨m, hadm, hout, hact⟩ := stepped_enter h hpc
    have hfit := hs.shape.fits t
    rw [hpc] at hfit
    have hhand := hs.handshake o.chan
    have silent (hm : m.silent) : Tally (pairings o.chan) (owedPair o.chan)
        (tr ++ [⟨s, .run t wake, l⟩]) s' := by
      have hquiet := acted_pairings (c := o.chan) hact hm
      refine ht.step h touches hopens fun u _ _ => ?_
      rw [hquiet, List.append_nil]
      refine acted_owes hhand hpc (fun hp => ?_) hm hout hact u
      subst hp
      simpa [State.matched, hpc] using hok
    cases m with
    | exchange => exact ht.step h touches hopens fun u _ _ => exchange_tallied hhand hpc hout hact u
    | transfer b v =>
      cases hout with
      | transfer b v attempts =>
        exact absurd hc (attempts_buffered attempts (by simpa using hs.shape.kind o.chan) hfit.2)
    | _ => exact silent trivial
  · have hno : ∀ t wake p o, a = .run t wake → s.pc t = .enter p o → o.chan ≠ c :=
      fun t wake p o ha hpc hch => helse ⟨t, wake, p, o, ha, hpc, hch⟩
    have hquiet : ∀ k, pairings c l k = [] := by
      cases stepped_on h c with
      | quiet _ _ label => exact pairings_chan label
      | critical t wake p o m action pc chan => exact absurd chan (hno t wake p o action pc)
    refine ht.step h touches hopens fun u hu hu' => ?_
    rw [hquiet, List.append_nil]
    exact owedPair_elsewhere hs h hno hu hu'

theorem stepped_once {tr : List (Event (State τ χ α) (Action τ χ α) (Label τ χ α))}
    (hs : Sound size s) (h : Stepped s a l s') (hn : (tally partiesOf tr c).Nodup)
    (ht : Tally (pairings c) (owedPair c) (tr ++ [⟨s, a, l⟩]) s') :
    (tally partiesOf (tr ++ [⟨s, a, l⟩]) c).Nodup := by
  refine List.nodup_iff_count_le_one.mpr fun k => ?_
  rw [parties_count]
  by_cases hw : pairings c l k = []
  · rw [tally_snoc, hw, List.append_nil, ← parties_count]
    exact List.nodup_iff_count_le_one.mp hn k
  · obtain ⟨t, n⟩ := k
    obtain ⟨rfl, hpc, hpc'⟩ := stepped_touches hs h hw
    rw [← (stepped_calls h t).2.2.1 hpc, ht.current t hpc']
    exact owedPair_length c s' t

end OperatingSystems.Concurrency
