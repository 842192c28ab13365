import OperatingSystems.Concurrency.Calls

namespace OperatingSystems.Concurrency
open Channel Transition

variable {τ χ α : Type}

def Pc.op : Pc χ → Option (Op χ)
  | .enter _ o => some o
  | .publish o => some o
  | _ => none

def Cells (s : State τ χ α) : Prop :=
  ∀ t i e, (s.entries t)[i]? = some e → e.dir = .send → s.data t i = e.data

def Requested (s : State τ χ α) (t : τ) (o : Op χ) (v : α) : Prop :=
  ∃ e, (s.entries t)[o.index]? = some e ∧ e.channel = o.chan ∧ e.dir = o.dir ∧
    (o.dir = .send → v = e.data)

theorem stays_op [DecidableEq χ] {pc : Pc χ} {c : χ} {w : Wait} {o : Op χ}
    (h : pc.stays c = some (w, o)) : pc.op = some o := by
  unfold Pc.stays at h
  split at h <;> simp_all [Pc.op]

theorem op_owned {size : χ → Nat} {es : List (Entry χ α)} {pc : Pc χ} {o : Op χ}
    (h : pc.fits size es) (ho : pc.op = some o) : Owned es o := by
  cases pc with
  | enter p o' => cases ho; exact h.1
  | publish o' => cases ho; exact h.1
  | _ => cases ho

theorem done_op {pc : Pc χ} {r : Op χ × Status} (h : pc.done = some r) : pc.op = none := by
  cases pc <;> first | rfl | cases h

theorem op_done {pc : Pc χ} {o : Op χ} (h : pc.op = some o) : pc.done = none := by
  cases pc <;> first | rfl | cases h

theorem Owned.dir_eq {es : List (Entry χ α)} {o : Op χ} {e : Entry χ α} (h : Owned es o)
    (he : es[o.index]? = some e) : e.dir = o.dir := by
  obtain ⟨e', he', -, hd⟩ := h.entry
  rw [he] at he'
  cases he'
  exact hd

theorem setData_data [DecidableEq τ] (s : State τ χ α) (t u : τ) (i j : Nat) (v : α) :
    (s.setData t i v).data u j = if u = t ∧ j = i then v else s.data u j := by
  by_cases hu : u = t
  · subst hu
    by_cases hj : j = i
    · simp [hj]
    · simp [hj]
  · simp [hu]

theorem exchange_partner [DecidableEq χ] {s : State τ χ α} {c : χ} {d : Dir} {partner : τ × Nat}
    (hh : Handshake s c)
    (hstage : (s.chan c).unbufStage = 1) (hactive : (s.chan c).activeUnbufOp ≠ some d)
    (hdata : (s.chan c).unbufData = some partner) :
    ∃ o, (s.pc partner.1).stays c = some (.complete, o) ∧ o.index = partner.2 ∧
      o.dir = d.flip := by
  cases hh with
  | free stage => simp [hstage] at stage
  | met t o stage => simp [hstage] at stage
  | offered t o stage stays alone active data =>
    rw [data] at hdata
    cases hdata
    refine ⟨o, stays, rfl, ?_⟩
    exact flip_of_ne fun hd => hactive (hd ▸ active)

theorem start_cells [DecidableEq τ] {s : State τ χ α} (hc : Cells s) (t : τ) (k : Call χ α) :
    Cells (s.start t k) := by
  intro u i e he hd
  by_cases hu : u = t
  · subst hu
    cases k with
    | send c v | nonBlockingSend c v =>
      simp only [State.start, Function.update_self, List.getElem?_singleton] at he
      split at he
      · cases he
        simp_all [State.start]
      · cases he
    | receive c | nonBlockingReceive c =>
      simp only [State.start, Function.update_self, List.getElem?_singleton] at he
      split at he
      · cases he
        cases hd
      · cases he
    | select es =>
      unfold State.start at he ⊢
      dsimp only at he ⊢
      split at he
      · simp only [*, if_true]
        exact hc u i e he hd
      · simp only [Function.update_self] at he
        simp [*]
    | close c => exact hc u i e he hd
  · obtain ⟨hes, -, -, hdata⟩ := start_other s t hu k
    rw [hes] at he
    rw [hdata]
    exact hc u i e he hd

structure Sound [DecidableEq χ] (size : χ → Nat) (s : State τ χ α) : Prop where
  shape : Shape size s
  handshake : ∀ c, Handshake s c
  queued : ∀ c, Queued s c
  cells : Cells s

theorem init_sound [DecidableEq χ] {size : χ → Nat} {s : State τ χ α} (h : Init size s) : Sound size s :=
  ⟨init_shape h, fun c => (init_handshake h c).1, fun c => (init_handshake h c).2,
    fun t i e he => by simp [h.entries t] at he⟩

variable [DecidableEq τ] [DecidableEq χ] [Fintype τ] {size : χ → Nat} {s s' : State τ χ α}
  {a : Action τ χ α} {l : Label τ χ α}

theorem acted_cell {t : τ} {p : Point} {o : Op χ} {m : Move α}
    (hh : Handshake s o.chan) (hpc : s.pc t = .enter p o)
    (hout : Outcome ((s.chan o.chan).arrive o.dir p) o (s.data t o.index) p m)
    (h : Acted s t o ((s.chan o.chan).arrive o.dir p)
      (((s.chan o.chan).arrive o.dir p).after t o m) m l s') (u : τ) (i : Nat) :
    s'.data u i = s.data u i ∨ ∃ o', (s.pc u).op = some o' ∧ o'.index = i ∧ o'.dir = .recv ∧
      l.chan = some o'.chan := by
  cases h with
  | transfer b v =>
    simp only [State.goto_data, setData_data]
    split
    · rename_i hui
      obtain ⟨rfl, rfl⟩ := hui
      cases hd : o.dir with
      | recv => exact .inr ⟨o, by simp [hpc, Pc.op], rfl, hd, rfl⟩
      | send =>
        cases hout with
        | transfer b v ha ht =>
          rw [hd] at ht
          exact .inl (transfer_send ht).1
    · exact .inl rfl
  | exchange wake partner hp hl =>
    cases hout with
    | exchange enters stage active =>
      rw [arrive_unbufStage] at stage
      rw [arrive_activeUnbufOp] at active
      rw [arrive_unbufData] at hp
      obtain ⟨o', hst, hi, hd⟩ := exchange_partner hh stage active hp
      have hchan : (s.exchangeLabel t o partner).chan = some o.chan := by
        unfold State.exchangeLabel
        split <;> rfl
      simp only [finish_data, State.exchangeData]
      cases hod : o.dir with
      | recv =>
        simp only [setData_data]
        split
        · rename_i hui
          obtain ⟨rfl, rfl⟩ := hui
          exact .inr ⟨o, by simp [hpc, Pc.op], rfl, hod, hchan⟩
        · exact .inl rfl
      | send =>
        simp only [setData_data]
        split
        · rename_i hui
          obtain ⟨rfl, rfl⟩ := hui
          exact .inr ⟨o', stays_op hst, hi, by simp [hd, hod, Dir.flip], stays_chan hst ▸ hchan⟩
        · exact .inl rfl
  | _ => simp [State.broadcast]

theorem stepped_cell (hh : ∀ c, Handshake s c) (h : Stepped s a l s') {u : τ}
    (hu : ∀ k, a ≠ .call u k) (i : Nat) : s'.data u i = s.data u i ∨
      ∃ o, (s.pc u).op = some o ∧ o.index = i ∧ o.dir = .recv ∧ l.chan = some o.chan := by
  have hp := stepped_progress h
  generalize a.actor = t at hp
  cases hp with
  | called k hpc =>
    have hut : u ≠ t := by
      rintro rfl
      exact hu k rfl
    exact .inl (by rw [(start_other s t hut k).2.2.2])
  | returned wake o st hpc => exact .inl rfl
  | critical wake p o m l s' hpc hadm hout hact => exact acted_cell (hh _) hpc hout hact u i
  | inner a l s' hpc hpc' hdone hlabel hcalls hdata => exact .inl (by rw [hdata])

theorem stepped_entries (h : Stepped s a l s') {u : τ} (hu : ∀ k, a ≠ .call u k) :
    s'.entries u = s.entries u := by
  have hf := stepped_frame h
  have hp := stepped_progress h
  by_cases hua : u = a.actor
  · rw [← hua] at hp
    cases hp with
    | called k hpc => exact absurd rfl (hu k)
    | returned wake o st hpc => rfl
    | critical wake p o m l s' hpc hadm hout hact => rw [acted_entries hact]
    | inner a l s' hpc hpc' hdone hlabel hcalls hdata hentries => rw [hentries]
  · exact hf.entries u hua

theorem stepped_cells (hs : Shape size s) (hh : ∀ c, Handshake s c) (hc : Cells s)
    (h : Stepped s a l s') : Cells s' := by
  intro u i e he hd
  by_cases hcall : ∃ k, a = .call u k
  · obtain ⟨k, rfl⟩ := hcall
    cases h with
    | call t k hpc => exact start_cells hc u k u i e he hd
  · have hcall := not_exists.mp hcall
    rw [stepped_entries h hcall] at he
    rcases stepped_cell hh h hcall i with hdata | ⟨o, ho, rfl, hrecv, -⟩
    · rw [hdata]
      exact hc u i e he hd
    · rw [(op_owned (hs.fits u) ho).dir_eq he, hrecv] at hd
      cases hd

theorem stepped_sound (hs : Sound size s) (h : Stepped s a l s') : Sound size s' :=
  ⟨stepped_shape hs.shape h, fun c => stepped_handshake hs.shape h (hs.handshake c),
    fun c => stepped_queued h (hs.queued c), stepped_cells hs.shape hs.handshake hs.cells h⟩

theorem run_sound {tr : List (Event (State τ χ α) (Action τ χ α) (Label τ χ α))}
    (h : Run (system size) tr s) : Sound size s :=
  h.always (P := Sound size) (fun _ => init_sound) fun _ _ _ _ hs h =>
    stepped_sound hs (stepped_of_step h)

end OperatingSystems.Concurrency
