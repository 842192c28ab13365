import OperatingSystems.Concurrency.Fifo

namespace OperatingSystems.Concurrency
open Channel Transition

variable {τ χ α : Type}

def Decided (c : χ) (tr : List (Event (State τ χ α) (Action τ χ α) (Label τ χ α)))
    (t : τ) (n : Nat) (o : Op χ) (st : Status) : Prop :=
  (st = .success ∧ ∃ d ∈ tr, (d.before.chan c).closedFlag = false ∧
    ∃ v, d.seen = .took t n o v) ∨
  (st = .channelFull ∧ ∃ d ∈ tr, (d.before.chan c).closedFlag = false ∧
    d.seen = .refused t n o) ∨
  st = .closedError

theorem Decided.mono {c : χ} {tr : List (Event (State τ χ α) (Action τ χ α) (Label τ χ α))} {t : τ}
    {n : Nat} {o : Op χ} {st : Status} (h : Decided c tr t n o st)
    (e : Event (State τ χ α) (Action τ χ α) (Label τ χ α)) : Decided c (tr ++ [e]) t n o st := by
  rcases h with ⟨hst, d, hd, h⟩ | ⟨hst, d, hd, h⟩ | hst
  · exact .inl ⟨hst, d, List.mem_append_left _ hd, h⟩
  · exact .inr (.inl ⟨hst, d, List.mem_append_left _ hd, h⟩)
  · exact .inr (.inr hst)

variable [DecidableEq χ]

-- a retry loop that goes on after `channel_close` still finds the buffer full or empty
def State.heldOff (c : χ) (s : State τ χ α) : Action τ χ α → Bool
  | .run t _ =>
    match s.pc t with
    | .enter (.wait .retry) o =>
      decide (o.chan = c → (s.chan c).closedFlag = true → (s.chan c).stuck o.dir)
    | _ => true
  | _ => true

structure Final (c : χ) (tr : List (Event (State τ χ α) (Action τ χ α) (Label τ χ α))) : Prop where
  untouched : ∀ e ∈ tr, (e.before.chan c).closedFlag = true →
    ∀ t n o v, e.seen = .took t n o v → o.chan ≠ c
  answers : ∀ e ∈ tr, ∀ t n o st, e.seen = .returned t n (some o) st → o.chan = c →
    Decided c tr t n o st

theorem attempts_open {s : State τ χ α} {c : χ} {t : τ} {wake : τ → Bool} {p : Point} {o : Op χ}
    {v : α} {r : Buffer α × α}
    (hpc : s.pc t = .enter p o) (hc : o.chan = c) (hok : s.heldOff c (.run t wake) = true)
    (ha : ((s.chan c).arrive o.dir p).Attempts p)
    (hd : ((s.chan c).arrive o.dir p).transfer o.dir v = some r) :
    (s.chan c).closedFlag = false := by
  rcases ha with ⟨-, hopen, -⟩ | rfl
  · simpa using hopen
  · by_contra hclosed
    rw [transfer_eq_none.mpr ?_] at hd
    · cases hd
    simp only [State.heldOff, hpc, decide_eq_true_eq] at hok
    exact hok hc (by simpa using hclosed)

variable [DecidableEq τ] [Fintype τ] {size : χ → Nat} {s s' : State τ χ α} {a : Action τ χ α}
  {l : Label τ χ α} {tr : List (Event (State τ χ α) (Action τ χ α) (Label τ χ α))}

theorem acted_decided {c : χ} {t : τ} {wake : τ → Bool} {p : Point} {o : Op χ} {m : Move α}
    (hs : Shape size s) (hbuf : size c ≠ 0) (hok : s.heldOff c (.run t wake) = true)
    (hpc : s.pc t = .enter p o) (hc : o.chan = c)
    (hout : Outcome ((s.chan c).arrive o.dir p) o (s.data t o.index) p m)
    (hact : Acted s t o ((s.chan c).arrive o.dir p)
      (((s.chan c).arrive o.dir p).after t o m) m l s') {o' : Op χ} {st : Status}
    (hd : (s'.pc t).done = some (o', st)) :
    Decided c (tr ++ [⟨s, .run t wake, l⟩]) t (s.calls t) o' st := by
  have hf := hs.fits t
  have hk : ((s.chan c).arrive o.dir p).isUnbuffered = (size o.chan == 0) := by
    simpa [hc] using hs.kind c
  rw [hpc] at hf
  rw [acted_done hact] at hd
  subst hc
  cases outcome_buffered hbuf hk hf.2 hout with
  | shut => cases hd; exact .inr (.inr rfl)
  | transfer b w attempts done =>
    cases hd
    cases hact
    have hopen := attempts_open hpc rfl hok attempts done
    exact .inl ⟨rfl, _, List.mem_append_right _ (List.mem_singleton.mpr rfl), hopen, w, rfl⟩
  | refuse lock isOpen =>
    cases hact
    simp only [Move.done] at hd
    split at hd <;> cases hd
    exact .inr (.inl ⟨rfl, _, List.mem_append_right _ (List.mem_singleton.mpr rfl),
      by simpa using isOpen, rfl⟩)
  | retry => cases hd

structure Late (c : χ) (tr : List (Event (State τ χ α) (Action τ χ α) (Label τ χ α)))
    (s : State τ χ α) : Prop where
  current : ∀ t o st, (s.pc t).done = some (o, st) → o.chan = c → Decided c tr t (s.calls t) o st
  final : Final c tr

theorem stepped_late {c : χ} (hs : Shape size s) (hbuf : size c ≠ 0) (hl : Late c tr s)
    (hok : s.heldOff c a = true) (h : Stepped s a l s') : Late c (tr ++ [⟨s, a, l⟩]) s' := by
  have hf := stepped_frame h
  refine ⟨fun t o st hd hc => ?_, fun e he hclosed t n o v hseen hc => ?_,
    fun e he t n o st hseen hc => ?_⟩
  · by_cases ht : t = a.actor
    · have hp := stepped_progress h
      rw [← ht] at hp
      cases hp with
      | called k hpc => rw [start_done] at hd; cases hd
      | returned wake o' st' hpc => simp [Pc.done] at hd
      | critical wake p o' m l s' hpc hadm hout hact =>
        have ho : o'.chan = c := by
          have hm := (acted_done hact).symm.trans hd
          cases m with
          | refuse =>
            simp only [Move.done] at hm
            split at hm <;> cases hm
            exact hc
          | transfer | closed | exchange | complete => cases hm; exact hc
          | _ => cases hm
        subst ho
        rw [acted_calls hact]
        exact acted_decided hs hbuf hok hpc rfl hout hact hd
      | inner a l s' hpc hpc' hdone hlabel hcalls =>
        rw [hdone] at hd
        rw [hcalls]
        exact (hl.current t o st hd hc).mono _
    · rw [hf.pc t ht] at hd
      rw [hf.calls t ht]
      exact (hl.current t o st hd hc).mono _
  · rcases List.mem_append.mp he with he | he
    · exact hl.final.untouched e he hclosed t n o v hseen hc
    · cases List.mem_singleton.mp he
      dsimp only at hseen hclosed
      cases stepped_on h c with
      | quiet _ _ label => exact label (by simp [hseen, Label.chan, hc])
      | critical u wake p o' m action pc chan admitted outcome acted =>
        subst action chan
        obtain ⟨rfl, -, rfl, b, rfl⟩ := acted_took acted hseen
        cases outcome with
        | transfer b w attempts done => simp [attempts_open pc rfl hok attempts done] at hclosed
  · rcases List.mem_append.mp he with he | he
    · exact (hl.final.answers e he t n o st hseen hc).mono _
    · cases List.mem_singleton.mp he
      dsimp only at hseen
      subst hseen
      obtain ⟨rfl, hpc, -⟩ := stepped_returned h
      exact (hl.current t o st (by simp [hpc, Pc.done]) hc).mono _

theorem released_took {c : χ} (hs : Shape size s) (hok : s.heldOff c a = false)
    (h : Stepped s a l s') :
    (s.chan c).closedFlag = true ∧ ∃ t n o v, l = .took t n o v ∧ o.chan = c := by
  cases a with
  | call t k => cases hok
  | spurious t => cases hok
  | run t wake =>
    simp only [State.heldOff] at hok
    split at hok
    · rename_i o hpc
      simp only [decide_eq_false_iff_not, Classical.not_imp] at hok
      obtain ⟨rfl, hclosed, hfree⟩ := hok
      have hf := hs.fits t
      rw [hpc] at hf
      obtain ⟨m, -, hout, hact⟩ := stepped_enter h hpc
      obtain ⟨b, w, rfl⟩ := outcome_retry hout hf.2.1 hfree
      cases hact
      exact ⟨hclosed, _, _, o, w, rfl, rfl⟩
    · cases hok

theorem close_final {c : χ} (hbuf : size c ≠ 0) (h : Run (system size) tr s) :
    Final c tr ↔ Meets (fun s a => s.heldOff c a = true) tr := by
  constructor
  · intro hfin e he
    by_contra hno
    obtain ⟨tr₁, s', hr, hs⟩ := h.event e he
    obtain ⟨hclosed, t, n, o, v, hseen, hc⟩ :=
      released_took (run_sound hr).shape (Bool.eq_false_iff.mpr hno) (stepped_of_step hs)
    exact hfin.untouched e he hclosed t n o v hseen hc
  · intro hok
    exact (h.invariant (P := Late c) (fun s hi => ⟨fun t o st hd => by simp [hi.pc t, Pc.done] at hd,
      fun e he => (by cases he), fun e he => (by cases he)⟩)
      (fun tr s a l s' hr hl ha hs =>
        stepped_late (run_sound hr).shape hbuf hl ha (stepped_of_step hs)) hok).final

theorem close_final_blocked : ∃ (tr : List (Event (State (Fin 2) Unit Nat) _ _)) (s : _),
    Run (system fun _ => 1) tr s ∧
      .returned 1 1 (some ⟨.blocking, .send, (), 0⟩) .closedError ∈ seen tr ∧ Final () tr := by
  let go (t : Fin 2) : Action (Fin 2) Unit Nat := .run t fun _ => true
  obtain ⟨tr, s, hr, -, hret, hok⟩ := replay_run (M := system fun _ => 1)
    (initial_init (fun _ : Unit => 1) 0)
    [.call 0 (.send () 7), go 0, go 0, go 0, go 0, .call 1 (.send () 8), go 1, .call 0 (.close ()),
      go 0, go 0, go 0, go 0, go 0, go 1, go 1]
    (fun tr _ => .returned 1 1 (some ⟨.blocking, .send, (), 0⟩) .closedError ∈ seen tr ∧
      Meets (fun s a => s.heldOff () a = true) tr)
    (by decide +kernel)
  exact ⟨tr, s, hr, hret, (close_final (by decide) hr).mpr hok⟩

theorem send_after_close : ∃ (tr : List (Event (State (Fin 2) Unit Nat) _ _)) (s : _),
    Run (system fun _ => 1) tr s ∧
      .returned 1 1 (some ⟨.blocking, .send, (), 0⟩) .success ∈ seen tr ∧ ¬ Final () tr := by
  let go (t : Fin 2) : Action (Fin 2) Unit Nat := .run t fun _ => true
  obtain ⟨tr, s, hr, -, hret, e, he, hclosed, hseen⟩ := replay_run (M := system fun _ => 1)
    (initial_init (fun _ : Unit => 1) 0)
    [.call 0 (.send () 7), go 0, go 0, go 0, go 0, .call 1 (.send () 8), go 1,
      .call 0 (.receive ()), go 0, go 0, go 0, go 0, .call 0 (.close ()), go 0, go 1, go 1, go 1,
      go 1]
    (fun tr _ => .returned 1 1 (some ⟨.blocking, .send, (), 0⟩) .success ∈ seen tr ∧
      ∃ e ∈ tr, (e.before.chan ()).closedFlag = true ∧
        e.seen = .took 1 1 ⟨.blocking, .send, (), 0⟩ 8)
    (by decide +kernel)
  exact ⟨tr, s, hr, hret, fun h => h.untouched e he hclosed _ _ _ _ hseen rfl⟩

end OperatingSystems.Concurrency
