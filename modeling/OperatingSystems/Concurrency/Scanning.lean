import OperatingSystems.Concurrency.Registration
import OperatingSystems.Library.Inevitable

namespace OperatingSystems.Concurrency
open Channel Transition Inevitable

variable {τ χ α : Type}

def Channel.proceeds (ch : Channel τ α) (d : Dir) : Prop :=
  ch.closedFlag = true ∨ if ch.isUnbuffered then ch.partnerActive d else ¬ ch.stuck d

instance (ch : Channel τ α) (d : Dir) : Decidable (ch.proceeds d) :=
  inferInstanceAs (Decidable (_ ∨ ite _ _ _))

namespace Channel
variable {ch : Channel τ α} {o : Op χ} {v : α}

theorem after_refuse {t : τ} (hfree : ch.chanMutex = none) : ch.after t o .refuse = ch := by
  cases ch
  simp_all [after]

theorem move_closed (hclosed : ch.closedFlag = true) : ch.move o v .lock = .closed := by
  simp [move, hclosed]

theorem not_proceeds (h : ¬ ch.proceeds o.dir) : ch.closedFlag = false ∧
    (ch.isUnbuffered = true → ¬ ch.partnerActive o.dir) ∧
      (ch.isUnbuffered = false → ch.stuck o.dir) := by
  obtain ⟨hopen, hrest⟩ := not_or.mp h
  refine ⟨by simpa using hopen, fun hu => ?_, fun hu => ?_⟩
  · simpa [hu] using hrest
  · simpa [hu] using hrest

section
variable (ho : o.mode = .select) (hopen : ch.closedFlag = false)
include ho hopen

theorem move_refuse (hnot : ¬ ch.proceeds o.dir)
    (halone : ch.isUnbuffered = true → ch.selectors o.dir.flip = []) :
    ch.move o v .lock = .refuse := by
  obtain ⟨-, hpartner, hstuck⟩ := not_proceeds hnot
  cases hu : ch.isUnbuffered with
  | false => simp [move, buffered, hopen, hu, ho, transfer_eq_none.mpr (hstuck hu)]
  | true => simp [move, unbuffered, readySync, ready, hopen, hu, ho, hpartner hu, halone hu]

theorem move_waits (hu : ch.isUnbuffered = true) (hlisted : ch.selectors o.dir.flip ≠ [])
    (hactive : ch.unbufStage = 1 → ch.activeUnbufOp = some o.dir) :
    ch.move o v .lock = .publish ∨ ch.move o v .lock = .block .rendezvous := by
  have hready : ch.ready o.dir := .inr (List.length_pos_iff.mpr hlisted)
  have hmove : ch.move o v .lock = ch.unbufferedSync o.dir := by
    simp [move, unbuffered, readySync, hopen, hu, ho, hready]
  rw [hmove, unbufferedSync]
  split
  · exact .inl rfl
  · split
    · rw [if_pos (hactive ‹_›)]
      exact .inr rfl
    · exact .inr rfl

theorem move_exchange (hu : ch.isUnbuffered = true) (hpartner : ch.partnerActive o.dir) :
    ch.move o v .lock = .exchange := by
  have hready : ch.ready o.dir := .inl hpartner
  have hne : ch.activeUnbufOp ≠ some o.dir := fun he =>
    partnerActive_behind hpartner fun _ => he
  simp [move, unbuffered, readySync, unbufferedSync, hopen, hu, ho, hready, hpartner.1, hne]

omit ho in
theorem move_transfer (hu : ch.isUnbuffered = false) {b : Buffer α} {w : α}
    (hdone : ch.transfer o.dir v = some (b, w)) : ch.move o v .lock = .transfer b w := by
  simp [move, buffered, hopen, hu, hdone]

end

end Channel

def Channel.withSelectors (ch : Channel τ α) (f : Dir → List τ) : Channel τ α :=
  { ch with selectors := f }

theorem withSelectors_transfer (ch : Channel τ α) (f : Dir → List τ) (d : Dir) (v : α) :
    (ch.withSelectors f).transfer d v = ch.transfer d v := by
  cases d <;> rfl

def State.listing (s : State τ χ α) (f : χ → Dir → List τ) : State τ χ α :=
  { s with chan := fun c => (s.chan c).withSelectors (f c) }

section
variable [DecidableEq χ]

-- the states between `init_select` and `cleanup_select`, after the calls for the entries `es`
def State.enrolled (s : State τ χ α) (t : τ) (es : List (Entry χ α)) : State τ χ α :=
  s.listing fun c d => (s.chan c).selectors d ++ List.replicate (es.countP (Entry.at c d)) t

theorem enrolled_nil (s : State τ χ α) (t : τ) : s.enrolled t [] = s := by
  simp [State.enrolled, State.listing, withSelectors]

theorem setChan_listing {s : State τ χ α} {e : Entry χ α} {f g : χ → Dir → List τ} {l : List τ}
    (hl : g e.channel e.dir = l)
    (hg : ∀ c d, ¬ (c = e.channel ∧ d = e.dir) → g c d = f c d) :
    (s.listing f).setChan e.channel ((s.chan e.channel).withSelectors
      (Function.update (f e.channel) e.dir l)) = s.listing g := by
  unfold State.setChan State.listing
  congr 1
  funext c
  by_cases hc : c = e.channel
  · subst hc
    rw [Function.update_self]
    refine congrArg (withSelectors _) (funext fun d => ?_)
    by_cases hd : d = e.dir
    · rw [hd, Function.update_self, hl]
    · rw [Function.update_of_ne hd, hg _ _ fun h => hd h.2]
  · rw [Function.update_of_ne hc]
    exact congrArg (withSelectors _) (funext fun d => (hg _ _ fun h => hc h.1).symm)

variable [DecidableEq τ]

def State.withdrawn (s : State τ χ α) (t : τ) (es : List (Entry χ α)) : State τ χ α :=
  s.listing fun c d => ((s.chan c).selectors d).diff (List.replicate (es.countP (Entry.at c d)) t)

theorem withdrawn_nil (s : State τ χ α) (t : τ) : s.withdrawn t [] = s := by
  simp [State.withdrawn, State.listing, withSelectors]

variable {s : State τ χ α} {t : τ} {es : List (Entry χ α)} {e : Entry χ α}

omit [DecidableEq τ] in
theorem addSelect_enrolled : (s.enrolled t es).addSelect t e = s.enrolled t (es ++ [e]) := by
  refine setChan_listing ?_ fun c d hne => ?_
  · simp [Entry.at, List.replicate_succ', State.enrolled, State.listing, withSelectors]
  · simp [Entry.at, hne]

theorem removeSelect_withdrawn :
    (s.withdrawn t es).removeSelect t e = s.withdrawn t (es ++ [e]) := by
  refine setChan_listing ?_ fun c d hne => ?_
  · simp [Entry.at, List.replicate_succ', State.withdrawn, State.listing, withSelectors,
      List.diff_append]
  · simp [Entry.at, hne]

theorem diff_replicate {l : List τ} (h : t ∉ l) (n : Nat) :
    (l ++ List.replicate n t).diff (List.replicate n t) = l := by
  induction n with
  | zero => simp
  | succ n ih =>
    rw [List.replicate_succ, List.diff_cons, List.erase_append_right _ h, List.erase_cons_head, ih]

def Entry.op (e : Entry χ α) (i : Nat) : Op χ := ⟨.select, e.dir, e.channel, i⟩

omit [DecidableEq τ] [DecidableEq χ] in
theorem scanAt_entry {i : Nat} (he : (s.entries t)[i]? = some e) :
    s.scanAt t i = .enter .lock (e.op i) := by
  simp [State.scanAt, he, Entry.op]

omit [DecidableEq χ] in
theorem goto_goto (s : State τ χ α) (t : τ) (p q : Pc χ) : (s.goto t p).goto t q = s.goto t q := by
  simp [State.goto]

omit [DecidableEq τ] in
theorem setChan_same (c : χ) : s.setChan c (s.chan c) = s := by
  rw [State.setChan, Function.update_eq_self]

theorem setChan_goto (p : Pc χ) (c : χ) (ch : Channel τ α) :
    (s.goto t p).setChan c ch = (s.setChan c ch).goto t p := rfl

theorem addSelect_goto (p : Pc χ) : (s.goto t p).addSelect t e = (s.addSelect t e).goto t p := rfl

theorem removeSelect_goto (p : Pc χ) :
    (s.goto t p).removeSelect t e = (s.removeSelect t e).goto t p := rfl

end

section
variable [DecidableEq τ] [DecidableEq χ] [Fintype τ]

def runs (t : τ) (s s' : State τ χ α) : Prop := ∃ wake l, s.step (.run t wake) = some (l, s')

variable {s s' x : State τ χ α} {t : τ} {es : List (Entry χ α)} {goal : State τ χ α → Prop}

theorem runs_iff {l : Label τ χ α} (h : ∀ wake, s.run t wake = some (l, x)) :
    runs t s s' ↔ s' = x := by
  simp [runs, State.step, h, eq_comm]

theorem not_runs (h : ∀ wake, s.run t wake = none) : ¬ runs t s s' := by
  simp [runs, State.step, h]

section
variable {n : Nat} {e : Entry χ α} {o : Op χ} {st : Status} (wake : τ → Bool)

theorem run_register (he : (s.entries t)[n]? = some e) :
    (s.goto t (.register n)).run t wake =
      some (.tau, (s.addSelect t e).goto t (.register (n + 1))) := by
  simp [State.run, he, addSelect_goto, goto_goto]

theorem run_register_last (he : (s.entries t)[n]? = none) :
    (s.goto t (.register n)).run t wake = some (.tau, s.goto t (s.scanAt t 0)) := by
  simp [State.run, he, goto_goto, State.scanAt]

theorem run_notify : (s.goto t (.notify o)).run t wake =
    some (.tau, (s.notifySelect o.dir.flip o.chan).goto t (.signal o)) := by
  have hlast := goto_goto (s.notifySelect o.dir.flip o.chan) t (.notify o) (.signal o)
  rw [State.run, State.goto_pc, Function.update_self, ← hlast]
  rfl

theorem run_signal (hpc : s.pc t = .signal o) :
    s.run t wake = if s.legal o.chan o.dir.announces wake then
      some (.tau, (s.wake o.chan o.dir.announces wake).finish t o .success) else none := by
  rw [State.run, hpc]

theorem run_cleanup (he : (s.entries t)[n]? = some e) :
    (s.goto t (.cleanup n o st)).run t wake =
      some (.tau, (s.removeSelect t e).goto t (.cleanup (n + 1) o st)) := by
  simp [State.run, he, removeSelect_goto, goto_goto]

theorem run_cleanup_last (he : (s.entries t)[n]? = none) :
    (s.goto t (.cleanup n o st)).run t wake = some (.tau, s.goto t (.ret (some o) st)) := by
  simp [State.run, he, goto_goto]

end

section
variable (hgoal : ∀ u, goal u → ∃ o st, u.pc t = .ret o st)
include hgoal

-- the loops over the entries in `init_select` and `cleanup_select`
theorem looped_iff (f : List (Entry χ α) → State τ χ α) (pc : Nat → Pc χ)
    (es : List (Entry χ α)) (last : Pc χ) (hpc : ∀ n o st, pc n ≠ .ret o st)
    (hturn : ∀ n e wake, es[n]? = some e → ((f (es.take n)).goto t (pc n)).run t wake =
      some (.tau, (f (es.take n ++ [e])).goto t (pc (n + 1))))
    (hlast : ∀ wake, ((f es).goto t (pc es.length)).run t wake =
      some (.tau, (f es).goto t last)) :
    Inevitably (runs t) goal ((f []).goto t (pc 0)) ↔
      Inevitably (runs t) goal ((f es).goto t last) := by
  have hnot : ∀ (u : State τ χ α) n, ¬ goal (u.goto t (pc n)) := by
    intro u n h
    obtain ⟨o, st, hret⟩ := hgoal _ h
    exact hpc n o st (by simpa using hret)
  have hsteps := @inevitably_steps _ (runs t) goal (fun n => (f (es.take n)).goto t (pc n))
    es.length (fun n _ => hnot _ n) fun n hn s' => by
      refine runs_iff (l := .tau) fun wake => ?_
      rw [hturn n es[n] wake (List.getElem?_eq_getElem hn), List.take_append_getElem hn]
  rw [List.take_zero, List.take_length] at hsteps
  rw [hsteps]
  exact inevitably_step (hnot _ _) fun s' => runs_iff hlast

theorem enrolled_iff (hpc : s.pc t = .register 0) (hes : s.entries t = es) :
    Inevitably (runs t) goal s ↔
      Inevitably (runs t) goal ((s.enrolled t es).goto t (s.scanAt t 0)) := by
  subst hes
  have hloop := looped_iff hgoal (s.enrolled t) .register (s.entries t) (s.scanAt t 0)
    (by simp) (fun n e wake he => ?_) fun wake => ?_
  · rw [enrolled_nil, State.goto, ← hpc, Function.update_eq_self] at hloop
    exact hloop
  · rw [run_register (s := s.enrolled t _) wake he, addSelect_enrolled]
  · exact run_register_last (s := s.enrolled t _) wake (List.getElem?_eq_none le_rfl)

theorem withdrawn_iff {o : Op χ} {st : Status} (hpc : s.pc t = .cleanup 0 o st)
    (hes : s.entries t = es) : Inevitably (runs t) goal s ↔
      Inevitably (runs t) goal ((s.withdrawn t es).goto t (.ret (some o) st)) := by
  subst hes
  have hloop := looped_iff hgoal (s.withdrawn t) (fun n => .cleanup n o st) (s.entries t)
    (.ret (some o) st) (by simp) (fun n e wake he => ?_) fun wake => ?_
  · rw [withdrawn_nil, State.goto, ← hpc, Function.update_eq_self] at hloop
    exact hloop
  · rw [run_cleanup (s := s.withdrawn t _) wake he, removeSelect_withdrawn]
  · exact run_cleanup_last (s := s.withdrawn t _) wake (List.getElem?_eq_none le_rfl)

end

theorem run_enter {o : Op χ} {wake : τ → Bool} (hfree : (s.chan o.chan).chanMutex = none) :
    (s.goto t (.enter .lock o)).run t wake = (s.goto t (.enter .lock o)).act t o (s.chan o.chan) wake
      ((s.chan o.chan).move o (s.data t o.index) .lock) := by
  simp [State.run, State.critical, State.admitted, hfree, arrive]

theorem run_enter_taken {o : Op χ} {wake : τ → Bool} (htaken : (s.chan o.chan).chanMutex ≠ none) :
    (s.goto t (.enter .lock o)).run t wake = none := by
  simp [State.run, State.critical, State.admitted, htaken]

theorem scan_refused {i : Nat} {e : Entry χ α} (he : (s.entries t)[i]? = some e)
    (hfree : (s.chan e.channel).chanMutex = none) (hnot : ¬ (s.chan e.channel).proceeds e.dir)
    (halone : (s.chan e.channel).isUnbuffered = true →
      (s.chan e.channel).selectors e.dir.flip = []) :
    runs t (s.goto t (s.scanAt t i)) s' ↔ s' = s.goto t (s.scanAt t (i + 1)) := by
  refine runs_iff (l := .refused t (s.calls t) (e.op i)) fun wake => ?_
  have hmove : (s.chan e.channel).move (e.op i) (s.data t i) .lock = .refuse :=
    move_refuse rfl (not_proceeds (o := e.op i) hnot).1 hnot halone
  have hleft : (s.chan e.channel).after t (e.op i) .refuse = s.chan e.channel := after_refuse hfree
  rw [scanAt_entry he, run_enter hfree]
  refine (congrArg (State.act _ t (e.op i) _ wake) hmove).trans ?_
  show some (_, ((s.goto t _).setChan e.channel ((s.chan e.channel).after t _ _)).goto t _) = _
  rw [hleft, setChan_goto, setChan_same, goto_goto]
  rfl

-- `t` has published an operation or sleeps, and nobody is there to wake it
def Suspended (t : τ) (s : State τ χ α) : Prop :=
  (∃ o, s.pc t = .publish o) ∨ ∃ w o, s.pc t = .enter (.wait w) o ∧ s.woken t = false

theorem suspended_step (h : Suspended t s) (hs : runs t s s') : Suspended t s' := by
  obtain ⟨wake, l, hs⟩ := hs
  rcases h with ⟨o, hpc⟩ | ⟨w, o, hpc, hw⟩
  · simp only [State.step, State.run, hpc, Option.some.injEq, Prod.mk.injEq] at hs
    obtain ⟨-, rfl⟩ := hs
    exact .inr ⟨.complete, o, by simp, by simp⟩
  · simp [State.step, State.run, hpc, State.critical, State.admitted, hw] at hs

omit [DecidableEq τ] in
theorem legal_all (s : State τ χ α) (c : χ) (k : Cond) : s.legal c k fun _ => true :=
  fun ⟨u, hu⟩ => ⟨u, hu, rfl⟩

def State.passable (s : State τ χ α) (t : τ) (j : Nat) : Prop :=
  ∀ e ∈ (s.entries t)[j]?, (s.chan e.channel).chanMutex = none ∧
    ((s.chan e.channel).isUnbuffered = true → (s.chan e.channel).selectors e.dir.flip = [])

section
variable (hgoal : ∀ u, goal u → ∃ o st, u.pc t = .ret o st) {i : Nat}
include hgoal

theorem suspended_never (h : Suspended t s) : ¬ Inevitably (runs t) goal s := by
  refine not_inevitably (I := Suspended t) (fun u hu hg => ?_) (fun _ _ => suspended_step) h
  obtain ⟨o, st, hret⟩ := hgoal u hg
  rcases hu with ⟨o, hpc⟩ | ⟨w, o, hpc, -⟩
  · simp [hpc] at hret
  · simp [hpc] at hret

omit [DecidableEq χ] [Fintype τ] in
theorem not_entering (u : State τ χ α) (p : Point) (o : Op χ) : ¬ goal (u.goto t (.enter p o)) := by
  intro h
  obtain ⟨o, st, hret⟩ := hgoal _ h
  simp at hret

theorem enter_taken {o : Op χ} (htaken : (s.chan o.chan).chanMutex ≠ none) :
    ¬ Inevitably (runs t) goal (s.goto t (.enter .lock o)) := by
  refine not_inevitably (I := (· = s.goto t (.enter .lock o))) ?_ ?_ rfl
  · rintro _ rfl
    exact not_entering hgoal s _ _
  · rintro _ s' rfl hs
    exact absurd hs (not_runs fun wake => run_enter_taken htaken)

theorem scan_suspends {e : Entry χ α} (he : (s.entries t)[i]? = some e)
    (hfree : (s.chan e.channel).chanMutex = none) (hnot : ¬ (s.chan e.channel).proceeds e.dir)
    (hu : (s.chan e.channel).isUnbuffered = true)
    (hlisted : (s.chan e.channel).selectors e.dir.flip ≠ [])
    (hactive : (s.chan e.channel).unbufStage = 1 →
      (s.chan e.channel).activeUnbufOp = some e.dir) :
    ¬ Inevitably (runs t) goal (s.goto t (s.scanAt t i)) := by
  rw [scanAt_entry he]
  have hopen := (not_proceeds (o := e.op i) hnot).1
  rcases move_waits (o := e.op i) (v := s.data t i) rfl hopen hu hlisted hactive with hmove | hmove
  · rw [inevitably_step (not_entering hgoal s _ _) fun s' => runs_iff fun wake =>
      (run_enter hfree).trans (congrArg (State.act _ t (e.op i) _ wake) hmove)]
    exact suspended_never hgoal (.inl ⟨e.op i, by simp⟩)
  · rw [inevitably_step (not_entering hgoal s _ _) fun s' => runs_iff fun wake =>
      (run_enter hfree).trans (congrArg (State.act _ t (e.op i) _ wake) hmove)]
    exact suspended_never hgoal (.inr ⟨.rendezvous, e.op i, by simp, by simp⟩)

theorem scan_iff (hi : i ≤ (s.entries t).length)
    (hnot : ∀ j e, j < i → (s.entries t)[j]? = some e → ¬ (s.chan e.channel).proceeds e.dir)
    (hactive : ∀ j e, j < i → (s.entries t)[j]? = some e →
      (s.chan e.channel).isUnbuffered = true → (s.chan e.channel).unbufStage = 1 →
        (s.chan e.channel).activeUnbufOp = some e.dir) :
    Inevitably (runs t) goal (s.goto t (s.scanAt t 0)) ↔
      (∀ j < i, s.passable t j) ∧ Inevitably (runs t) goal (s.goto t (s.scanAt t i)) := by
  refine inevitably_chain (f := fun j => s.goto t (s.scanAt t j)) (fun j hj => ?_)
    (fun j hj hpass s' => ?_) fun j hj hfail => ?_
  · have he : (s.entries t)[j]? = some (s.entries t)[j] := List.getElem?_eq_getElem (by omega)
    rw [scanAt_entry he]
    exact not_entering hgoal s _ _
  · have he : (s.entries t)[j]? = some (s.entries t)[j] := List.getElem?_eq_getElem (by omega)
    obtain ⟨hfree, halone⟩ := hpass _ he
    exact scan_refused he hfree (hnot j _ hj he) halone
  · obtain ⟨e, he, hblocked⟩ : ∃ e, (s.entries t)[j]? = some e ∧
        ¬ ((s.chan e.channel).chanMutex = none ∧ ((s.chan e.channel).isUnbuffered = true →
          (s.chan e.channel).selectors e.dir.flip = [])) := by
      simpa [State.passable, -not_and] using hfail
    by_cases hfree : (s.chan e.channel).chanMutex = none
    · obtain ⟨hu, hlisted⟩ := Classical.not_imp.mp fun h => hblocked ⟨hfree, h⟩
      exact scan_suspends hgoal he hfree (hnot j e hj he) hu hlisted (hactive j e hj he hu)
    · rw [scanAt_entry he]
      exact enter_taken hgoal hfree

end

end

end OperatingSystems.Concurrency
