import Mathlib.Algebra.BigOperators.Fin
import OperatingSystems.Concurrency.LinkedList
import OperatingSystems.Concurrency.Selecting

namespace OperatingSystems.Concurrency
open Channel Transition

variable {τ χ α : Type}

def Pc.selecting : Pc χ → Bool
  | .enter _ o => o.mode = .select
  | .publish o => o.mode = .select
  | .notify o => o.mode = .select
  | .signal o => o.mode = .select
  | .register _ => true
  | .semWait => true
  | .cleanup _ _ _ => true
  | _ => false

def Pc.standing (es : List (Entry χ α)) : Pc χ → List (Entry χ α)
  | .enter _ o => if o.mode = .select then es else []
  | .publish o => if o.mode = .select then es else []
  | .notify o => if o.mode = .select then es else []
  | .signal o => if o.mode = .select then es else []
  | .register i => es.take i
  | .semWait => es
  | .cleanup i _ _ => es.drop i
  | _ => []

theorem not_selecting_standing {pc : Pc χ} (h : pc.selecting = false) (es : List (Entry χ α)) :
    pc.standing es = [] := by
  cases pc <;> simp_all [Pc.selecting, Pc.standing]

theorem leave_standing (es : List (Entry χ α)) (o : Op χ) (st : Status) :
    (o.leave st).standing es = if o.mode = .select then es else [] := by
  rcases leave_cases o st with ⟨hm, h⟩ | ⟨hm, h⟩ <;> rw [h]
  · exact (if_neg hm).symm
  · exact (if_pos hm).symm

theorem scanAt_standing (s : State τ χ α) (t : τ) (i : Nat) (es : List (Entry χ α)) :
    (s.scanAt t i).standing es = es := by
  rcases scanAt_cases s t i with ⟨e, -, h⟩ | ⟨-, h⟩ <;> rw [h] <;> rfl

theorem refused_standing (s : State τ χ α) (t : τ) (o : Op χ) (es : List (Entry χ α)) :
    (s.refused t o).standing es = if o.mode = .select then es else [] := by
  rcases refused_cases s t o with ⟨hm, h⟩ | ⟨hm, h⟩
  · rw [h]
    exact (if_neg hm).symm
  · rw [h, scanAt_standing, if_pos hm]

theorem next_standing (s : State τ χ α) (t : τ) (o : Op χ) (m : Move α) (es : List (Entry χ α)) :
    (o.next (s.refused t o) m).standing es = if o.mode = .select then es else [] := by
  cases m with
  | refuse => exact refused_standing s t o es
  | closed | exchange | complete => exact leave_standing es o _
  | _ => rfl

theorem start_standing [DecidableEq τ] (s : State τ χ α) (t : τ) (k : Call χ α)
    (es : List (Entry χ α)) : ((s.start t k).pc t).standing es = [] := by
  rcases start_cases s t k with ⟨o, hm, h⟩ | h | h | ⟨c, h⟩ <;> rw [h]
  · exact if_neg hm
  · rfl
  · rfl
  · rfl

def Entry.at [DecidableEq χ] (c : χ) (d : Dir) (e : Entry χ α) : Bool :=
  c = e.channel ∧ d = e.dir

def Enrolled [DecidableEq τ] [DecidableEq χ] (s : State τ χ α) : Prop :=
  ∀ c d t, ((s.chan c).selectors d).count t =
    ((s.pc t).standing (s.entries t)).countP (Entry.at c d)

-- the call of `add_select_*` or `remove_select_*` that a step makes on a list
def State.edits [DecidableEq χ] (s : State τ χ α) (c : χ) (d : Dir) :
    Action τ χ α → List (LinkedList.Edit τ)
  | .run t _ =>
    match s.pc t with
    | .register i => ((s.entries t)[i]?.filter (Entry.at c d)).toList.map fun _ => .insert t
    | .cleanup i _ _ => ((s.entries t)[i]?.filter (Entry.at c d)).toList.map fun _ => .remove t
    | _ => []
  | _ => []

def editsOf [DecidableEq χ] (c : χ) (d : Dir)
    (tr : List (Event (State τ χ α) (Action τ χ α) (Label τ χ α))) : List (LinkedList.Edit τ) :=
  tr.flatMap fun e => e.before.edits c d e.action

theorem removeSelect_count_actor [DecidableEq τ] [DecidableEq χ] (s : State τ χ α) (t : τ)
    (e : Entry χ α) (c : χ) (d : Dir) :
    (((s.removeSelect t e).chan c).selectors d).count t =
      ((s.chan c).selectors d).count t - if c = e.channel ∧ d = e.dir then 1 else 0 := by
  by_cases hc : c = e.channel
  · subst hc
    by_cases hd : d = e.dir
    · simp [State.removeSelect, hd, List.count_erase_self]
    · simp [State.removeSelect, hd]
  · simp [State.removeSelect, hc]

theorem addSelect_selectors [DecidableEq τ] [DecidableEq χ] (s : State τ χ α) (t : τ)
    (e : Entry χ α) (c : χ) (d : Dir) : ((s.addSelect t e).chan c).selectors d =
      if c = e.channel ∧ d = e.dir then (s.chan c).selectors d ++ [t]
      else (s.chan c).selectors d := by
  by_cases hc : c = e.channel
  · subst hc
    by_cases hd : d = e.dir <;> simp [State.addSelect, hd]
  · simp [State.addSelect, hc]

theorem removeSelect_selectors [DecidableEq τ] [DecidableEq χ] (s : State τ χ α) (t : τ)
    (e : Entry χ α) (c : χ) (d : Dir) : ((s.removeSelect t e).chan c).selectors d =
      if c = e.channel ∧ d = e.dir then ((s.chan c).selectors d).erase t
      else (s.chan c).selectors d := by
  by_cases hc : c = e.channel
  · subst hc
    by_cases hd : d = e.dir <;> simp [State.removeSelect, hd]
  · simp [State.removeSelect, hc]

theorem Enrolled.absent [DecidableEq τ] [DecidableEq χ] {s : State τ χ α}
    (he : Enrolled s) {t : τ} (ht : (s.pc t).selecting = false) (c : χ)
    (d : Dir) : ((s.chan c).selectors d).count t = 0 := by
  rw [he c d t, not_selecting_standing ht]
  rfl

variable [DecidableEq τ] [DecidableEq χ] [Fintype τ] {size : χ → Nat} {s s' : State τ χ α}
  {a : Action τ χ α} {l : Label τ χ α}

theorem Enrolled.of_same (he : Enrolled s) (h : Stepped s a l s')
    (hlists : ∀ c d, ((s'.chan c).selectors d).count a.actor =
      ((s.chan c).selectors d).count a.actor)
    (hstands : (s'.pc a.actor).standing (s'.entries a.actor) =
      (s.pc a.actor).standing (s.entries a.actor)) : Enrolled s' := by
  have hf := stepped_frame h
  intro c d t
  by_cases ht : t = a.actor
  · rw [ht, hlists, hstands]
    exact he c d _
  · rw [hf.selectors t ht, hf.pc t ht, hf.entries t ht]
    exact he c d t

theorem stepped_enrolled (he : Enrolled s) (h : Stepped s a l s') : Enrolled s' := by
  have hf := stepped_frame h
  have hsame := he.of_same h
  cases h with
  | call t k hpc =>
    refine hsame (fun c d => by simp) ?_
    rw [Action.actor, start_standing, hpc]
    rfl
  | spurious t w o hpc => exact hsame (fun _ _ => rfl) rfl
  | critical t wake p o m l s' hpc hadm hout hact =>
    refine hsame (fun c d => ?_) ?_
    · rw [acted_chan hact, update_chan (fun ch => (ch.selectors d).count _) (by simp)]
    · rw [Action.actor, acted_pc hact, Function.update_self, acted_entries hact, next_standing, hpc]
      rfl
  | publish t wake o hpc =>
    refine hsame (fun c d => update_chan (fun ch => (ch.selectors d).count t) rfl) ?_
    simp [hpc, Pc.standing, State.broadcast]
  | close t wake c hpc =>
    refine hsame (fun c d => update_chan (fun ch => (ch.selectors d).count t) rfl) ?_
    simp [hpc, Pc.standing]
  | signal t wake o hpc =>
    refine hsame (fun c d => by simp) ?_
    rw [Action.actor, finish_pc, Function.update_self, leave_standing, hpc]
    simp [Pc.standing]
  | registered t wake i hpc hlast =>
    refine hsame (fun c d => rfl) ?_
    rw [Action.actor, State.goto_pc, Function.update_self, scanAt_standing, hpc]
    exact (List.take_of_length_le (List.getElem?_eq_none_iff.mp hlast)).symm
  | semWait t wake hpc =>
    refine hsame (fun c d => rfl) ?_
    rw [Action.actor, State.goto_pc, Function.update_self, hpc]
    exact scanAt_standing s t 0 _
  | cleaned t wake i o st hpc hlast =>
    refine hsame (fun c d => rfl) ?_
    rw [Action.actor, State.goto_pc, Function.update_self, hpc]
    exact (List.drop_eq_nil_of_le (List.getElem?_eq_none_iff.mp hlast)).symm
  | closeNotify t wake d c hpc =>
    refine hsame (fun c d => rfl) ?_
    cases d <;> simp [hpc, Pc.standing]
  | closeBroadcast t wake k c hpc =>
    refine hsame (fun c d => rfl) ?_
    cases k <;> simp [hpc, Pc.standing, Cond.nextInClose]
  | notify t wake o hpc | closeAgain t wake c hpc | ret t wake o st hpc =>
    refine hsame (fun c d => rfl) ?_
    simp [hpc, Pc.standing]
  | register t wake i e hpc hentry =>
    intro c d u
    by_cases hu : u = t
    · subst hu
      have hbefore := he c d u
      obtain ⟨hi, hget⟩ := List.getElem?_eq_some_iff.mp hentry
      rw [hpc] at hbefore
      rw [State.goto_chan, addSelect_count_actor, hbefore, State.goto_pc, Function.update_self]
      show _ = List.countP _ (List.take (i + 1) (s.entries u))
      rw [List.take_add_one, hentry, List.countP_append]
      simp [Pc.standing, Entry.at]
    · rw [hf.selectors u hu, hf.pc u hu, hf.entries u hu]
      exact he c d u
  | cleanup t wake i o st e hpc hentry =>
    intro c d u
    by_cases hu : u = t
    · subst hu
      have hbefore := he c d u
      obtain ⟨hi, hget⟩ := List.getElem?_eq_some_iff.mp hentry
      rw [hpc] at hbefore
      have hdrop := List.drop_eq_getElem_cons hi
      rw [hget] at hdrop
      rw [State.goto_chan, removeSelect_count_actor, hbefore, State.goto_pc, Function.update_self]
      simp only [Pc.standing, hdrop, List.countP_cons]
      simp [Entry.at, State.removeSelect]
    · rw [hf.selectors u hu, hf.pc u hu, hf.entries u hu]
      exact he c d u

theorem stepped_selectors (h : Stepped s a l s') (c : χ) (d : Dir) :
    (s'.chan c).selectors d =
      (s.edits c d a).foldl LinkedList.Edit.apply ((s.chan c).selectors d) := by
  cases h with
  | critical t wake p o m l s' hpc hadm hout hact =>
    rw [acted_chan hact, update_chan (fun ch => ch.selectors d) (by simp)]
    simp [State.edits, hpc]
  | publish t wake o hpc =>
    simp only [State.edits, hpc]
    exact update_chan (fun ch => ch.selectors d) rfl
  | close t wake c' hpc =>
    simp only [State.edits, hpc]
    exact update_chan (fun ch => ch.selectors d) rfl
  | register t wake i e hpc hentry =>
    rw [State.goto_chan, addSelect_selectors]
    by_cases he : c = e.channel ∧ d = e.dir
    · simp [State.edits, hpc, hentry, Option.filter, Entry.at, he, LinkedList.Edit.apply]
    · simp [State.edits, hpc, hentry, Option.filter, Entry.at, he]
  | cleanup t wake i o st e hpc hentry =>
    rw [State.goto_chan, removeSelect_selectors]
    by_cases he : c = e.channel ∧ d = e.dir
    · simp [State.edits, hpc, hentry, Option.filter, Entry.at, he, LinkedList.Edit.apply]
    · simp [State.edits, hpc, hentry, Option.filter, Entry.at, he]
  | registered t wake i hpc hlast => simp [State.edits, hpc, hlast]
  | cleaned t wake i o st hpc hlast => simp [State.edits, hpc, hlast]
  | call t k hpc => simp [State.edits]
  | spurious t w o hpc => rfl
  | signal t wake o hpc => simp [State.edits, hpc]
  | notify t wake o hpc | closeAgain t wake c' hpc | closeNotify t wake d' c' hpc
  | closeBroadcast t wake k c' hpc | semWait t wake hpc | ret t wake o st hpc =>
    simp [State.edits, hpc, State.broadcast]

theorem stepped_posts (he : Enrolled s) (h : Stepped s a l s') {t : τ}
    (ht : (s.pc t).selecting = false) : s'.sem t ≤ s.sem t := by
  have hnone := he.absent ht
  cases h with
  | call u k hpc =>
    by_cases hu : t = u
    · subst hu
      unfold State.start
      cases k with
      | select es => dsimp only; split <;> simp
      | _ => simp
    · exact (start_other s u hu k).2.1.le
  | critical u wake p o m l s' hpc hadm hout hact => rw [acted_sem hact]
  | publish u wake o hpc => simp [State.broadcast, hnone]
  | notify u wake o hpc => simp [hnone]
  | closeNotify u wake d c hpc => simp [hnone]
  | signal u wake o hpc => simp
  | semWait u wake hpc =>
    by_cases hu : t = u
    · simp [hu]
    · simp [hu]
  | _ => exact le_rfl

section
variable {tr : List (Event (State τ χ α) (Action τ χ α) (Label τ χ α))}
  (h : Run (system size) tr s)
include h

theorem run_enrolled : Enrolled s := by
  refine h.always (P := Enrolled) (fun s hi c d t => ?_) fun _ _ _ _ he h =>
    stepped_enrolled he (stepped_of_step h)
  obtain ⟨g, hg⟩ := hi.chan c
  rw [hg, hi.pc t]
  rfl

theorem run_edits (c : χ) (d : Dir) :
    (s.chan c).selectors d = (editsOf c d tr).foldl LinkedList.Edit.apply [] := by
  refine h.along (P := fun tr s => (s.chan c).selectors d =
    (editsOf c d tr).foldl LinkedList.Edit.apply []) (fun s hi => ?_) fun tr s a l s' _ hp hs => ?_
  · obtain ⟨g, hg⟩ := hi.chan c
    rw [hg]
    rfl
  · rw [stepped_selectors (stepped_of_step hs) c d, hp]
    simp [editsOf]

theorem selector_registration {ν : Type} [DecidableEq ν] :
    (∀ c d t, ((s.chan c).selectors d).count t =
      ((s.pc t).standing (s.entries t)).countP (Entry.at c d)) ∧
    (∀ c d (list : LinkedList ν τ), list.Made (editsOf c d tr) →
      list.count = ∑ t, ((s.pc t).standing (s.entries t)).countP (Entry.at c d) ∧
        ∃ nodes, list.Holds nodes ∧ nodes.map list.data = (s.chan c).selectors d) ∧
    (∀ a l s', s.step a = some (l, s') → ∀ t, (s.pc t).selecting = false →
      s'.sem t ≤ s.sem t) ∧
    ((∀ t, (s.pc t).selecting = false) → ∀ c d, (s.chan c).selectors d = []) := by
  have he := run_enrolled h
  refine ⟨he, fun c d list hmade => ?_,
    fun a l s' hs t ht => stepped_posts he (stepped_of_step hs) ht, fun hall c d => ?_⟩
  · obtain ⟨nodes, hnodes, hdata⟩ := LinkedList.made_holds hmade
    rw [← run_edits h c d] at hdata
    refine ⟨?_, nodes, hnodes, hdata⟩
    have hcard := Multiset.sum_count_eq_card (s := Finset.univ)
      (m := ((s.chan c).selectors d : Multiset τ)) fun t _ => Finset.mem_univ t
    rw [Multiset.coe_card, ← hdata, List.length_map, ← hnodes.count, hdata] at hcard
    exact hcard.symm.trans (Finset.sum_congr rfl fun t _ => (Multiset.coe_count t _).trans (he c d t))
  · refine List.eq_nil_iff_forall_not_mem.mpr fun t ht => ?_
    exact (List.count_pos_iff.mpr ht).ne' (he.absent (hall t) c d)

end

theorem selector_registration_twice :
    ∃ (tr : List (Event (State (Fin 2) Unit Nat) _ _)) (s : _), Run (system fun _ => 0) tr s ∧
      s.pc 0 = .semWait ∧ ((s.chan ()).selectors .send).count 0 = 2 ∧
      ((s.chan ()).selectors .recv).count 0 = 0 := by
  let go (t : Fin 2) : Action (Fin 2) Unit Nat := .run t fun _ => true
  obtain ⟨tr, s, hr, -, hpc, hes⟩ := replay_run (M := system fun _ => 0)
    (initial_init (fun _ : Unit => 0) 0)
    [.call 0 (.select [⟨(), .send, 7⟩, ⟨(), .send, 8⟩]), go 0, go 0, go 0, go 0, go 0,
      .call 1 (.receive ())]
    (fun _ s => s.pc 0 = .semWait ∧ s.entries 0 = [⟨(), .send, 7⟩, ⟨(), .send, 8⟩])
    (by decide +kernel)
  obtain ⟨hcount, -⟩ := selector_registration (ν := Nat) hr
  refine ⟨tr, s, hr, hpc, ?_, ?_⟩
  · rw [hcount, hpc, hes]
    rfl
  · rw [hcount, hpc, hes]
    rfl

end OperatingSystems.Concurrency
