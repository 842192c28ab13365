import OperatingSystems.Concurrency.Cells

namespace OperatingSystems.Concurrency
open Channel Transition

variable {τ χ α : Type}

def Move.moved : Move α → List α
  | .transfer _ v => [v]
  | _ => []

def owed (size : χ → Nat) (s : State τ χ α) (t : τ) : List (Op χ × α) :=
  match (s.pc t).done with
  | some (o, .success) => if size o.chan = 0 then [] else [(o, s.data t o.index)]
  | _ => []

theorem owed_congr {size : χ → Nat} {s s' : State τ χ α} {t : τ}
    (hdone : (s'.pc t).done = (s.pc t).done)
    (hdata : (s.pc t).op = none → s'.data t = s.data t) : owed size s' t = owed size s t := by
  unfold owed
  rw [hdone]
  split
  · rename_i o hd
    rw [hdata (done_op hd)]
  · rfl

-- a select that has succeeded, with `*sel_idx` written
def Pc.selected : Pc χ → Option (Op χ)
  | .cleanup _ o .success => some o
  | .ret (some o) .success => if o.mode = .select then some o else none
  | _ => none

def Selected (s : State τ χ α) : Prop :=
  ∀ t o, (s.pc t).selected = some o → s.selIdx t = some o.index

theorem scanAt_selected (s : State τ χ α) (t : τ) (i : Nat) : (s.scanAt t i).selected = none := by
  rcases scanAt_cases s t i with ⟨e, -, h⟩ | ⟨-, h⟩ <;> rw [h] <;> rfl

theorem refused_selected (s : State τ χ α) (t : τ) (o : Op χ) :
    (s.refused t o).selected = none := by
  rcases refused_cases s t o with ⟨-, h⟩ | ⟨-, h⟩
  · rw [h]
    rfl
  · rw [h, scanAt_selected]

theorem leave_selected (o : Op χ) {st : Status} (h : st ≠ .success) :
    (o.leave st).selected = none := by
  rcases leave_cases o st with ⟨hm, hl⟩ | ⟨-, hl⟩ <;> rw [hl]
  · cases st <;> first | exact if_neg hm | rfl
  · cases st <;> first | exact absurd rfl h | rfl

section
variable [DecidableEq τ] {s : State τ χ α} {t : τ}

theorem finish_selected {o o' : Op χ} {st : Status}
    (h : ((s.finish t o st).pc t).selected = some o') :
    (s.finish t o st).selIdx t = some o'.index := by
  unfold State.finish at h ⊢
  cases hm : o.mode with
  | blocking | nonblocking => cases st <;> simp [hm, Op.leave, Pc.selected] at h
  | select =>
    simp only [hm, State.goto_pc, Function.update_self, Op.leave] at h
    cases st <;> cases h
    simp

theorem finish_selIdx_other {u : τ} (hu : u ≠ t) (o : Op χ) (st : Status) :
    (s.finish t o st).selIdx u = s.selIdx u := by
  unfold State.finish
  cases o.mode <;> simp [hu]

theorem start_selected (k : Call χ α) : ((s.start t k).pc t).selected = none := by
  rcases start_cases s t k with ⟨o, -, h⟩ | h | h | ⟨c, h⟩ <;> rw [h] <;> rfl

end

section
variable [DecidableEq χ]

def moves : Label τ χ α → Dir × χ → List α
  | .took _ _ o v, k => if (o.dir, o.chan) = k then [v] else []
  | _, _ => []

theorem moves_chan {l : Label τ χ α} {c : χ} (h : l.chan ≠ some c) (d : Dir) :
    moves l (d, c) = [] := by
  cases l with
  | took t n o v =>
    refine if_neg fun he => h ?_
    cases he
    rfl
  | _ => rfl

structure Queue (size : χ → Nat) (c : χ)
    (tr : List (Event (State τ χ α) (Action τ χ α) (Label τ χ α))) (s : State τ χ α) : Prop where
  valid : (s.chan c).buffer.Valid
  capacity : (s.chan c).buffer.capacity = size c
  balance : tally moves tr (.recv, c) ++ (s.chan c).buffer.contents = tally moves tr (.send, c)

theorem requested {size : χ → Nat} {s : State τ χ α} {t : τ} {o : Op χ}
    (hs : Sound size s) (ho : Owned (s.entries t) o) :
    Requested s t o (s.data t o.index) := by
  obtain ⟨e, he, hc, hd⟩ := ho.entry
  exact ⟨e, he, hc, hd, fun hsend => hs.cells t o.index e he (hd.trans hsend)⟩

theorem init_queue {size : χ → Nat} {s : State τ χ α} (h : Init size s) {c : χ}
    (hc : size c ≠ 0) : Queue size c [] s := by
  obtain ⟨g, hg⟩ := h.chan c
  refine ⟨?_, ?_, ?_⟩ <;> rw [hg]
  · exact Buffer.create_valid (Nat.pos_of_ne_zero hc) g
  · rfl
  · rfl

end

variable [DecidableEq τ] [DecidableEq χ]

def transfers : Label τ χ α → τ × Nat → List (Op χ × α)
  | .took t n o v, k => if (t, n) = k then [(o, v)] else []
  | _, _ => []

variable [Fintype τ] {size : χ → Nat} {s s' : State τ χ α} {a : Action τ χ α} {l : Label τ χ α}

section
variable {t : τ} {o : Op χ} {m : Move α} {ch left : Channel τ α}

theorem acted_moves (h : Acted s t o ch left m l s') (k : Dir × χ) :
    moves l k = if (o.dir, o.chan) = k then m.moved else [] := by
  cases h with
  | exchange =>
    unfold State.exchangeLabel
    cases o.dir <;> simp [moves, Move.moved]
  | _ => simp [moves, Move.moved]

theorem acted_took {u : τ} {n : Nat} {o' : Op χ} {v : α}
    (h : Acted s t o ch left m l s') (hl : l = .took u n o' v) :
    u = t ∧ n = s.calls t ∧ o' = o ∧ ∃ b, m = .transfer b v := by
  cases h with
  | transfer b w =>
    cases hl
    exact ⟨rfl, rfl, rfl, b, rfl⟩
  | exchange =>
    unfold State.exchangeLabel at hl
    split at hl <;> cases hl
  | _ => cases hl

theorem acted_transfers (h : Acted s t o ch left m l s') (k : τ × Nat) :
    transfers l k = if (t, s.calls t) = k then m.moved.map (o, ·) else [] := by
  cases h with
  | exchange =>
    unfold State.exchangeLabel
    cases o.dir <;> simp [transfers, Move.moved]
  | _ => simp [transfers, Move.moved]

end

theorem stepped_queue {tr : List (Event (State τ χ α) (Action τ χ α) (Label τ χ α))} {c : χ}
    (hq : Queue size c tr s) (h : Stepped s a l s') : Queue size c (tr ++ [⟨s, a, l⟩]) s' := by
  obtain ⟨hv, hcap, hb⟩ := hq
  cases stepped_on h c with
  | quiet sync buffer label stays keeps =>
    refine ⟨?_, ?_, ?_⟩ <;> rw [buffer]
    · exact hv
    · exact hcap
    · simpa [moves_chan label] using hb
  | critical t wake p o m action pc chan admitted outcome acted =>
    subst chan
    have hchan := acted_here acted
    have hm := acted_moves acted
    cases outcome with
    | transfer b w attempts done =>
      have hbuf : (s'.chan o.chan).buffer = b := by rw [hchan, after_buffer]
      cases hd : o.dir with
      | send =>
        rw [hd] at done
        obtain ⟨rfl, hadd⟩ := transfer_send done
        rw [arrive_buffer] at hadd
        obtain ⟨hv', hc', -, hk, -⟩ := Buffer.add_spec hv hadd
        refine ⟨hbuf ▸ hv', by rw [hbuf, hk, hcap], ?_⟩
        rw [tally_snoc, tally_snoc, hm, hm, hbuf, hc', if_neg (by simp [hd]), if_pos (by simp [hd]),
          List.append_nil, ← List.append_assoc, hb]
        rfl
      | recv =>
        rw [hd] at done
        have hrem := transfer_recv done
        rw [arrive_buffer] at hrem
        obtain ⟨hv', hc', -, hk⟩ := Buffer.remove_spec hv hrem
        refine ⟨hbuf ▸ hv', by rw [hbuf, hk, hcap], ?_⟩
        rw [tally_snoc, tally_snoc, hm, hm, hbuf, if_pos (by simp [hd]), if_neg (by simp [hd]),
          List.append_nil, ← hb, hc', List.append_assoc]
        rfl
    | _ =>
      have hbuf : (s'.chan o.chan).buffer = (s.chan o.chan).buffer := by
        rw [hchan, after_buffer, arrive_buffer]
      refine ⟨hbuf ▸ hv, hbuf ▸ hcap, ?_⟩
      simpa [hm, Move.moved, hbuf] using hb

theorem stepped_transfers (h : Stepped s a l s') {t : τ} {n : Nat}
    (hw : transfers l (t, n) ≠ []) :
    t = a.actor ∧ n = s.calls t ∧ s.pc t ≠ .idle ∧ s'.pc t ≠ .idle := by
  have hp := stepped_progress h
  generalize a.actor = u at hp
  cases hp with
  | called k hpc => exact absurd rfl hw
  | returned wake o st hpc => exact absurd rfl hw
  | critical wake p o m l s' hpc hadm hout hact =>
    rw [acted_transfers hact] at hw
    split at hw
    · rename_i he
      cases he
      exact ⟨rfl, rfl, by simp [hpc], acted_ne_idle hact⟩
    · exact absurd rfl hw
  | inner a l s' hpc hpc' hdone hlabel =>
    rcases hlabel with rfl | ⟨c, rfl⟩ <;> exact absurd rfl hw

theorem acted_owed {t : τ} {p : Point} {o : Op χ} {m : Move α} {ch : Channel τ α}
    (hf : (Pc.enter p o).fits size (s.entries t)) (hk : ch.isUnbuffered = (size o.chan == 0))
    (hout : Outcome ch o (s.data t o.index) p m) (h : Acted s t o ch (ch.after t o m) m l s') :
    owed size s' t = m.moved.map (o, ·) := by
  have hd := acted_done h
  unfold owed
  rw [hd]
  cases hout with
  | transfer b w attempts done =>
    cases h
    simp [Move.done, Move.moved, attempts_buffered attempts hk hf.2, setData_data]
  | exchange enters => simp [Move.done, Move.moved, enters_unbuffered enters hk hf.2]
  | complete point =>
    subst point
    simp [Move.done, Move.moved, show size o.chan = 0 from hf.2]
  | pass | refuse =>
    by_cases hm : o.mode = .select <;> simp [Move.done, Move.moved, hm]
  | _ => simp [Move.done, Move.moved]

theorem stepped_tally {tr : List (Event (State τ χ α) (Action τ χ α) (Label τ χ α))}
    (hs : Sound size s) (ht : Tally transfers (owed size) tr s) (h : Stepped s a l s') :
    Tally transfers (owed size) (tr ++ [⟨s, a, l⟩]) s' := by
  have hf := stepped_frame h
  refine ht.step h (fun t n hw => (stepped_transfers h hw).2) (fun t hpc hpc' => ?_)
    fun t hpc hpc' => ?_
  · have hp := stepped_progress h
    by_cases ht : t = a.actor
    · rw [← ht] at hp
      cases hp with
      | called k _ => simp [owed, start_done]
      | returned wake o st hret => simp [hret] at hpc
      | critical wake p o m l s' henter => simp [henter] at hpc
      | inner a l s' hne => exact absurd hpc hne
    · rw [hf.pc t ht] at hpc'
      exact absurd hpc hpc'
  · have hcall : ∀ k, a ≠ .call t k := by
      rintro k rfl
      cases h with
      | call _ _ hidle => exact hpc hidle
    have hcell : (s.pc t).op = none → s'.data t = s.data t := by
      intro ho
      funext i
      rcases stepped_cell hs.handshake h hcall i with hd | ⟨o, ho', -⟩
      · exact hd
      · simp [ho] at ho'
    have hp := stepped_progress h
    by_cases ht : t = a.actor
    · rw [← ht] at hp
      cases hp with
      | called k hidle => exact absurd hidle hpc
      | returned wake o st hret => simp at hpc'
      | critical wake p o m l s' henter hadm hout hact =>
        have hfit := hs.shape.fits t
        rw [henter] at hfit
        have hno : owed size s t = [] := by simp [owed, henter, Pc.done]
        rw [acted_owed hfit (by simpa using hs.shape.kind o.chan) hout hact, acted_transfers hact,
          if_pos rfl, hno, List.nil_append]
      | inner a l s' hne hne' hdone hlabel hcalls hdata =>
        have hquiet : transfers l (t, s.calls t) = [] := by
          rcases hlabel with rfl | ⟨c, rfl⟩ <;> rfl
        rw [owed_congr hdone hcell, hquiet, List.append_nil]
    · have hquiet : transfers l (t, s.calls t) = [] := by
        by_contra hw
        exact ht (stepped_transfers h hw).1
      rw [owed_congr (by rw [hf.pc t ht]) hcell, hquiet, List.append_nil]

theorem stepped_selIdx (h : Stepped s a l s') {u : τ} (hu : u ≠ a.actor) :
    s'.selIdx u = s.selIdx u := by
  cases h with
  | call t k => exact (start_other s t hu k).2.2.1
  | critical t wake p o m l s' hpc hadm hout hact =>
    have hu : u ≠ t := hu
    cases hact <;> simp [State.broadcast, finish_selIdx_other hu]
  | signal t wake o => exact finish_selIdx_other hu o .success
  | _ => rfl

theorem stepped_selected (hs : Selected s) (h : Stepped s a l s') : Selected s' := by
  have hf := stepped_frame h
  intro u o hsel
  by_cases hu : u = a.actor
  · cases h with
    | call t k hpc =>
      subst hu
      rw [start_selected] at hsel
      cases hsel
    | spurious t w o' hpc => exact hs u o hsel
    | critical t wake p o' m l s' hpc hadm hout hact =>
      subst hu
      cases hact with
      | refuse =>
        rw [State.goto_pc, Function.update_self, refused_selected] at hsel
        cases hsel
      | closedUnbuffered =>
        rw [State.goto_pc, Function.update_self, leave_selected o' (by simp)] at hsel
        cases hsel
      | closedBuffered | exchange | complete => exact finish_selected hsel
      | _ => simp [Pc.selected] at hsel
    | signal t wake o' hpc =>
      subst hu
      exact finish_selected hsel
    | cleanup t wake i o' st e hpc =>
      subst hu
      refine hs _ o ?_
      rw [hpc]
      cases st <;> simp [State.removeSelect, Pc.selected] at hsel ⊢
      exact hsel
    | cleaned t wake i o' st hpc =>
      subst hu
      refine hs _ o ?_
      rw [hpc]
      cases st <;> simp [Pc.selected] at hsel ⊢
      exact hsel.2
    | registered t wake i hpc | semWait t wake hpc =>
      subst hu
      rw [State.goto_pc, Function.update_self, scanAt_selected] at hsel
      cases hsel
    | closeNotify t wake d => subst hu; cases d <;> simp [Pc.selected] at hsel
    | closeBroadcast t wake k =>
      subst hu
      cases k <;> simp [Pc.selected, Cond.nextInClose] at hsel
    | _ => subst hu; simp [Pc.selected, State.addSelect] at hsel
  · rw [stepped_selIdx h hu]
    rw [hf.pc u hu] at hsel
    exact hs u o hsel

def Answered (size : χ → Nat) (s : State τ χ α) (t : τ) (done : List (Op χ × α)) :
    Option (Op χ) → Status → Prop
  | none, _ => done = []
  | some o, st => Requested s t o (s.data t o.index) ∧
      done = (if st = .success ∧ size o.chan ≠ 0 then [(o, s.data t o.index)] else []) ∧
      (o.mode = .select → st = .success → s.selIdx t = some o.index)

theorem taken_requested {t : τ} {n : Nat} {o : Op χ} {v : α} (hs : Sound size s)
    (h : Stepped s a (.took t n o v) s') : Requested s t o v := by
  have hp := stepped_progress h
  generalize a.actor = u, hl : Label.took t n o v = l at hp
  cases hp with
  | called k hpc => cases hl
  | returned wake o st hpc => cases hl
  | critical wake p o' m l s' hpc hadm hout hact =>
    have hf := hs.shape.fits u
    rw [hpc] at hf
    obtain ⟨rfl, rfl, rfl, b, rfl⟩ := acted_took hact hl.symm
    obtain ⟨e, he, hc, hd, hv⟩ := requested hs hf.1
    refine ⟨e, he, hc, hd, fun hsend => ?_⟩
    cases hout with
    | transfer b w attempts done =>
      rw [hsend] at done
      rw [(transfer_send done).1, hv hsend]
  | inner a l s' hpc hpc' hdone hlabel => rcases hlabel with rfl | ⟨c, rfl⟩ <;> cases hl

section
variable {tr : List (Event (State τ χ α) (Action τ χ α) (Label τ χ α))}
  (h : Run (system size) tr s)
include h

theorem run_queue {c : χ} (hc : size c ≠ 0) : Queue size c tr s := by
  exact h.along (P := Queue size c) (fun s hi => init_queue hi hc)
    fun tr s a l s' _ hq hs => stepped_queue hq (stepped_of_step hs)

theorem run_tally : Tally transfers (owed size) tr s := by
  exact h.along (P := Tally transfers (owed size)) (fun s hi => .start hi)
    fun tr s a l s' hr ht hs => stepped_tally (run_sound hr) ht (stepped_of_step hs)

theorem run_selected : Selected s :=
  h.always (P := Selected) (fun s hi t o hsel => by simp [hi.pc t, Pc.selected] at hsel)
    fun _ _ _ _ hs h => stepped_selected hs (stepped_of_step h)

theorem channel_fifo :
    (∀ c, size c ≠ 0 →
      tally moves tr (.recv, c) ++ (s.chan c).buffer.contents = tally moves tr (.send, c) ∧
      (s.chan c).buffer.size ≤ size c) ∧
    (∀ e ∈ tr, ∀ t n o v, e.seen = .took t n o v → Requested e.before t o v) ∧
    (∀ e ∈ tr, ∀ t n o st, e.seen = .returned t n o st →
      Answered size e.before t (tally transfers tr (t, n)) o st) := by
  refine ⟨fun c hc => ?_, fun e he t n o v hseen => ?_, fun e he t n o st hseen => ?_⟩
  · have hq := run_queue h hc
    exact ⟨hq.balance, hq.capacity ▸ hq.valid.size⟩
  · obtain ⟨tr₁, s', hr, hs⟩ := h.event e he
    have hs := stepped_of_step hs
    rw [hseen] at hs
    exact taken_requested (run_sound hr) hs
  · obtain ⟨tr₁, s', hr, -⟩ := h.event e he
    obtain ⟨-, htally, hpc⟩ := (run_tally h).past e he t n o st hseen
    rw [htally]
    cases o with
    | none => simp [Answered, owed, hpc, Pc.done]
    | some o =>
      have hs := run_sound hr
      have hf := hs.shape.fits t
      rw [hpc] at hf
      refine ⟨requested hs hf, ?_, fun hm hst => ?_⟩
      · cases st <;> simp [owed, hpc, Pc.done]
      · subst hst
        exact run_selected hr t o (by simp [hpc, Pc.selected, hm])

end

theorem channel_fifo_two : ∃ (tr : List (Event (State (Fin 2) Unit Nat) _ _)) (s : _),
    Run (system fun _ => 2) tr s ∧
      tally moves tr (.recv, ()) ++ (s.chan ()).buffer.contents = [7, 8] ∧
      tally moves tr (.recv, ()) ++ (s.chan ()).buffer.contents = tally moves tr (.send, ()) := by
  let go (t : Fin 2) : Action (Fin 2) Unit Nat := .run t fun _ => true
  obtain ⟨tr, s, hr, -, hp⟩ := replay_run (M := system fun _ => 2)
    (initial_init (fun _ : Unit => 2) 0)
    [.call 0 (.send () 7), go 0, go 0, .call 1 (.receive ()), go 0, go 1, go 0,
      .call 0 (.select [⟨(), .recv, 0⟩, ⟨(), .send, 8⟩]), go 0, go 0, go 0, go 0, go 0]
    (fun tr s => tally moves tr (.recv, ()) ++ (s.chan ()).buffer.contents = [7, 8])
    (by decide +kernel)
  exact ⟨tr, s, hr, hp, ((channel_fifo hr).1 () (by decide)).1⟩

end OperatingSystems.Concurrency
