import OperatingSystems.Concurrency.Scanning

namespace OperatingSystems.Concurrency
open Channel Transition Inevitable

variable {τ χ α : Type} [DecidableEq τ] [DecidableEq χ]

inductive Transferred (s s' : State τ χ α) (t : τ) (i : Nat) (e : Entry χ α) : Status → Prop
  | closed (closed : (s.chan e.channel).closedFlag = true) (data : s'.data = s.data)
      (buffer : ∀ c, (s'.chan c).buffer = (s.chan c).buffer) :
      Transferred s s' t i e .closedError
  | buffered (isOpen : (s.chan e.channel).closedFlag = false)
      (buffered : (s.chan e.channel).isUnbuffered = false) (b : Buffer α) (v : α)
      (done : (s.chan e.channel).transfer e.dir (s.data t i) = some (b, v))
      (data : s'.data = (s.setData t i v).data)
      (buffer : ∀ c, (s'.chan c).buffer = if c = e.channel then b else (s.chan c).buffer) :
      Transferred s s' t i e .success
  | paired (isOpen : (s.chan e.channel).closedFlag = false)
      (unbuffered : (s.chan e.channel).isUnbuffered = true)
      (active : (s.chan e.channel).partnerActive e.dir) (partner : τ × Nat)
      (offered : (s.chan e.channel).unbufData = some partner) (other : partner.1 ≠ t)
      (data : s'.data = (s.exchangeData t (e.op i) partner).data)
      (buffer : ∀ c, (s'.chan c).buffer = (s.chan c).buffer) : Transferred s s' t i e .success

structure Picked (s : State τ χ α) (t : τ) (i : Nat) (e : Entry χ α) (s' : State τ χ α) : Prop where
  returned : ∃ st, s'.pc t = .ret (some (e.op i)) st ∧ Transferred s s' t i e st
  selIdx : s'.selIdx t = some i
  others : ∀ j, j ≠ i → s'.data t j = s.data t j
  buffers : ∀ c, c ≠ e.channel → (s'.chan c).buffer = (s.chan c).buffer
  selectors : ∀ c, (s'.chan c).selectors = (s.chan c).selectors

namespace Transferred
variable {s s' u : State τ χ α} {t : τ} {i : Nat} {e : Entry χ α} {st : Status}
  (h : Transferred s u t i e st)
include h

theorem congr (hdata : s'.data = u.data) (hbuffer : ∀ c, (s'.chan c).buffer = (u.chan c).buffer) :
    Transferred s s' t i e st := by
  cases h with
  | closed closed data buffer =>
    exact .closed closed (hdata.trans data) fun c => (hbuffer c).trans (buffer c)
  | buffered isOpen buffered b v done data buffer =>
    exact .buffered isOpen buffered b v done (hdata.trans data) fun c =>
      (hbuffer c).trans (buffer c)
  | paired isOpen unbuffered active partner offered other data buffer =>
    exact .paired isOpen unbuffered active partner offered other (hdata.trans data) fun c =>
      (hbuffer c).trans (buffer c)

theorem others {j : Nat} (hj : j ≠ i) : u.data t j = s.data t j := by
  cases h with
  | closed closed data buffer => rw [data]
  | buffered isOpen buffered b v done data buffer => simp [data, hj]
  | paired isOpen unbuffered active partner offered other data buffer =>
    rw [data, State.exchangeData]
    cases (e.op i).dir with
    | send => simp [other.symm]
    | recv => simp [Entry.op, hj]

theorem buffers {c : χ} (hc : c ≠ e.channel) : (u.chan c).buffer = (s.chan c).buffer := by
  cases h with
  | closed closed data buffer => exact buffer c
  | buffered isOpen buffered b v done data buffer => rw [buffer c, if_neg hc]
  | paired isOpen unbuffered active partner offered other data buffer => exact buffer c

end Transferred

variable {s u : State τ χ α} {t : τ} {es : List (Entry χ α)} {i : Nat} {e : Entry χ α}

theorem picked_returns {s' : State τ χ α} (h : Picked s t i e s') :
    ∃ o st, s'.pc t = .ret o st := by
  obtain ⟨st, hpc, -⟩ := h.returned
  exact ⟨_, st, hpc⟩

def State.reached (s : State τ χ α) (t : τ) (es : List (Entry χ α)) (e : Entry χ α) (i : Nat) :
    State τ χ α :=
  (s.enrolled t es).goto t (.enter .lock (e.op i))

def State.left (s : State τ χ α) (t : τ) (es : List (Entry χ α)) (e : Entry χ α) (i : Nat)
    (m : Move α) : State τ χ α :=
  (s.reached t es e i).setChan e.channel
    (((s.enrolled t es).chan e.channel).after t (e.op i) m)

theorem left_selectors (m : Move α) (c : χ) :
    ((s.left t es e i m).chan c).selectors = ((s.enrolled t es).chan c).selectors :=
  update_chan (s := s.enrolled t es) Channel.selectors (by simp)

theorem left_buffer (m : Move α) (hm : ∀ b v, m ≠ .transfer b v) (c : χ) :
    ((s.left t es e i m).chan c).buffer = (s.chan c).buffer := by
  refine update_chan (s := s.enrolled t es) Channel.buffer ?_
  rw [after_buffer]
  cases m with
  | transfer b v => exact absurd rfl (hm b v)
  | _ => rfl

theorem left_transfer (b : Buffer α) (v : α) (c : χ) :
    ((s.left t es e i (.transfer b v)).chan c).buffer =
      if c = e.channel then b else (s.chan c).buffer := by
  by_cases hc : c = e.channel
  · subst hc
    simp [State.left, after_buffer]
  · simp only [State.left, State.setChan_chan, Function.update_of_ne hc, if_neg hc]
    rfl

variable [Fintype τ]

theorem reached_run {m : Move α} (hfree : (s.chan e.channel).chanMutex = none)
    (hmove : ((s.enrolled t es).chan e.channel).move (e.op i) (s.data t i) .lock = m)
    (wake : τ → Bool) : (s.reached t es e i).run t wake =
      (s.reached t es e i).act t (e.op i) ((s.enrolled t es).chan e.channel) wake m := by
  rw [State.reached, run_enter hfree]
  exact congrArg (State.act _ t (e.op i) _ wake) hmove

theorem served_picked {st : Status} (habsent : ∀ c d, t ∉ (s.chan c).selectors d)
    (hpc : u.pc t = .cleanup 0 (e.op i) st) (hes : u.entries t = es)
    (hidx : u.selIdx t = some i) (hdone : Transferred s u t i e st)
    (hlists : ∀ c, (u.chan c).selectors = ((s.enrolled t es).chan c).selectors) :
    Inevitably (runs t) (Picked s t i e) u := by
  refine (withdrawn_iff (fun _ => picked_returns) hpc hes).mpr (.now ?_)
  have hend : Transferred s ((u.withdrawn t es).goto t (.ret (some (e.op i)) st)) t i e st :=
    hdone.congr rfl fun _ => rfl
  refine ⟨⟨st, by simp, hend⟩, hidx, fun j => hend.others, fun c => hend.buffers, fun c => ?_⟩
  funext d
  show ((u.chan c).selectors d).diff _ = _
  rw [hlists]
  exact diff_replicate (habsent c d) _

section
variable (habsent : ∀ c d, t ∉ (s.chan c).selectors d)
include habsent

theorem finish_picked {st : Status} (hes : u.entries t = es) (hdone : Transferred s u t i e st)
    (hlists : ∀ c, (u.chan c).selectors = ((s.enrolled t es).chan c).selectors) :
    Inevitably (runs t) (Picked s t i e) (u.finish t (e.op i) st) := by
  have hpc : (u.finish t (e.op i) st).pc t = .cleanup 0 (e.op i) st := by
    simp [Op.leave, Entry.op]
  have hentries : (u.finish t (e.op i) st).entries t = es := by
    rw [finish_entries, hes]
  refine served_picked habsent hpc hentries ?_ (hdone.congr ?_ fun c => ?_) fun c => ?_
  · simp [State.finish, Entry.op]
  · rw [finish_data]
  · rw [finish_chan]
  · rw [finish_chan, hlists]

variable (hes : s.entries t = es) (hfree : (s.chan e.channel).chanMutex = none)
include hes hfree

theorem reached_closed (hclosed : (s.chan e.channel).closedFlag = true)
    (hbuffered : (s.chan e.channel).isUnbuffered = false) :
    Inevitably (runs t) (Picked s t i e) (s.reached t es e i) := by
  have hkind : ((s.enrolled t es).chan e.channel).isUnbuffered = false := hbuffered
  have hrun (wake : τ → Bool) : (s.reached t es e i).run t wake =
      some (.denied t (s.calls t) (e.op i),
        (s.left t es e i .closed).finish t (e.op i) .closedError) := by
    rw [reached_run hfree (move_closed hclosed), State.act, hkind]
    rfl
  refine Inevitably.before (finish_picked (u := s.left t es e i .closed) habsent hes ?_
    (left_selectors _)) fun s' => runs_iff hrun
  exact .closed hclosed rfl (left_buffer _ fun _ _ he => by cases he)

theorem reached_transfer (hopen : (s.chan e.channel).closedFlag = false)
    (hbuffered : (s.chan e.channel).isUnbuffered = false)
    (hroom : ¬ (s.chan e.channel).stuck e.dir) :
    Inevitably (runs t) (Picked s t i e) (s.reached t es e i) := by
  obtain ⟨⟨b, v⟩, hdone⟩ := Option.ne_none_iff_exists'.mp (mt transfer_eq_none.mp hroom)
  have hopen' : ((s.enrolled t es).chan e.channel).closedFlag = false := hopen
  have hmove : ((s.enrolled t es).chan e.channel).move (e.op i) (s.data t i) .lock =
      .transfer b v :=
    move_transfer hopen' hbuffered ((withSelectors_transfer _ _ _ _).trans hdone)
  set u := (s.left t es e i (.transfer b v)).setData t i v with hu
  have hrun (wake : τ → Bool) : (s.reached t es e i).run t wake =
      some (.took t (s.calls t) (e.op i) v, u.goto t (.notify (e.op i))) := by
    rw [reached_run hfree hmove]
    rfl
  refine Inevitably.before ?_ fun s' => runs_iff hrun
  refine Inevitably.before ?_ fun s' => runs_iff fun wake => run_notify wake
  set w := (u.notifySelect (e.op i).dir.flip (e.op i).chan).goto t (.signal (e.op i)) with hw
  have hsignal (wake : τ → Bool) := run_signal (s := w) (t := t) (o := e.op i) wake (by simp [hw])
  refine .later ⟨_, fun _ => true, .tau, (hsignal _).trans (if_pos (legal_all w _ _))⟩
    fun s' ⟨wake, l, hs⟩ => ?_
  have hs := (hsignal wake).symm.trans hs
  split at hs
  · cases hs
    refine finish_picked (u := w.wake _ _ wake) habsent hes ?_ (left_selectors _)
    exact .buffered hopen hbuffered b v hdone rfl (left_transfer b v)
  · cases hs

theorem reached_exchange {partner : τ × Nat} (hopen : (s.chan e.channel).closedFlag = false)
    (hunbuffered : (s.chan e.channel).isUnbuffered = true)
    (hactive : (s.chan e.channel).partnerActive e.dir)
    (hoffered : (s.chan e.channel).unbufData = some partner) (hother : partner.1 ≠ t) :
    Inevitably (runs t) (Picked s t i e) (s.reached t es e i) := by
  have hopen' : ((s.enrolled t es).chan e.channel).closedFlag = false := hopen
  have hmove : ((s.enrolled t es).chan e.channel).move (e.op i) (s.data t i) .lock = .exchange :=
    move_exchange rfl hopen' hunbuffered hactive
  have hdata : ((s.enrolled t es).chan e.channel).unbufData = some partner := hoffered
  have hrun (wake : τ → Bool) : (s.reached t es e i).run t wake =
      if (s.reached t es e i).legal e.channel .rendezvousComplete wake then
        some ((s.reached t es e i).exchangeLabel t (e.op i) partner,
          ((((s.left t es e i .exchange).wake e.channel .rendezvousComplete wake).exchangeData t
            (e.op i) partner).finish t (e.op i) .success))
      else none := by
    rw [reached_run hfree hmove, State.act, hdata]
    rfl
  refine .later ⟨_, fun _ => true, _, (hrun _).trans (if_pos (legal_all _ _ _))⟩
    fun s' hmove => ?_
  obtain ⟨wake, l, hs⟩ := hmove
  have hs := (hrun wake).symm.trans hs
  split at hs
  · cases hs
    have hentries : (((s.left t es e i .exchange).wake e.channel .rendezvousComplete
        wake).exchangeData t (e.op i) partner).entries t = es := by
      rw [exchangeData_entries]
      exact hes
    refine finish_picked habsent hentries ?_ fun c => ?_
    · refine .paired hopen hunbuffered hactive partner hoffered hother ?_ fun c => ?_
      · unfold State.exchangeData
        cases (e.op i).dir <;> rfl
      · rw [exchangeData_chan]
        exact left_buffer _ (fun _ _ he => by cases he) c
    · rw [exchangeData_chan]
      exact left_selectors _ c
  · cases hs

end

def Pc.cleaning : Pc χ → Prop
  | .cleanup _ _ _ => True
  | .ret _ _ => True
  | .idle => True
  | _ => False

theorem cleaning_step {s' : State τ χ α} (h : (s.pc t).cleaning) (hs : runs t s s') :
    (s'.pc t).cleaning ∧ s'.selIdx = s.selIdx := by
  obtain ⟨wake, l, hs⟩ := hs
  cases hpc : s.pc t with
  | idle => simp [State.step, State.run, hpc] at hs
  | cleanup n o st =>
    simp only [State.step, State.run, hpc] at hs
    split at hs
    · cases hs
      exact ⟨by simp [Pc.cleaning], rfl⟩
    · cases hs
      exact ⟨by simp [Pc.cleaning], rfl⟩
  | ret o st =>
    simp only [State.step, State.run, hpc] at hs
    cases hs
    exact ⟨by simp [Pc.cleaning], rfl⟩
  | _ =>
    rw [hpc] at h
    exact h.elim

theorem reached_silent (hnone : s.selIdx t = none) (hclosed : (s.chan e.channel).closedFlag = true)
    (hunbuffered : (s.chan e.channel).isUnbuffered = true)
    (hfree : (s.chan e.channel).chanMutex = none) :
    ¬ Inevitably (runs t) (Picked s t i e) (s.reached t es e i) := by
  have hkind : ((s.enrolled t es).chan e.channel).isUnbuffered = true := hunbuffered
  have hrun (wake : τ → Bool) : (s.reached t es e i).run t wake =
      some (.denied t (s.calls t) (e.op i),
        (s.left t es e i .closed).goto t ((e.op i).leave .closedError)) := by
    rw [reached_run hfree (move_closed hclosed), State.act, hkind]
    rfl
  have hentering : ¬ Picked s t i e (s.reached t es e i) :=
    not_entering (fun _ => picked_returns) (s.enrolled t es) .lock (e.op i)
  rw [inevitably_step hentering fun s' => runs_iff hrun]
  refine not_inevitably (I := fun u => (u.pc t).cleaning ∧ u.selIdx t = none)
    (fun u hu hpicked => ?_) (fun u u' hu hs => ?_) ⟨?_, hnone⟩
  · exact Option.some_ne_none i (hpicked.selIdx.symm.trans hu.2)
  · obtain ⟨hcleaning, hidx⟩ := cleaning_step hu.1 hs
    exact ⟨hcleaning, (congrFun hidx t).trans hu.2⟩
  · simp [Op.leave, Entry.op, Pc.cleaning]

theorem reached_iff (hnone : s.selIdx t = none) (hes : s.entries t = es)
    (habsent : ∀ c d, t ∉ (s.chan c).selectors d)
    (hready : (s.chan e.channel).proceeds e.dir)
    (hpartner : (s.chan e.channel).partnerActive e.dir →
      ∃ partner, (s.chan e.channel).unbufData = some partner ∧ partner.1 ≠ t) :
    Inevitably (runs t) (Picked s t i e) (s.reached t es e i) ↔
      (s.chan e.channel).chanMutex = none ∧
        ((s.chan e.channel).closedFlag = true → (s.chan e.channel).isUnbuffered = false) := by
  refine ⟨fun h => ?_, fun ⟨hfree, hkind⟩ => ?_⟩
  · have hfree : (s.chan e.channel).chanMutex = none := by
      by_contra htaken
      exact enter_taken (s := s.enrolled t es) (o := e.op i) (fun _ => picked_returns) htaken h
    refine ⟨hfree, fun hclosed => ?_⟩
    by_contra hu
    exact reached_silent hnone hclosed (by simpa using hu) hfree h
  · cases hclosed : (s.chan e.channel).closedFlag with
    | true => exact reached_closed habsent hes hfree hclosed (hkind hclosed)
    | false =>
      have hready := hready.resolve_left (by simp [hclosed])
      cases hu : (s.chan e.channel).isUnbuffered with
      | true =>
        have hactive : (s.chan e.channel).partnerActive e.dir := by simpa [hu] using hready
        obtain ⟨partner, hoffered, hother⟩ := hpartner hactive
        exact reached_exchange habsent hes hfree hclosed hu hactive hoffered hother
      | false =>
        exact reached_transfer habsent hes hfree hclosed hu (by simpa [hu] using hready)

-- nothing keeps the scan from coming to entry `i`, and `*sel_idx` is set there
structure Clear (chan : χ → Channel τ α) (es : List (Entry χ α)) (i : Nat) (e : Entry χ α) :
    Prop where
  free : ∀ j f, j ≤ i → es[j]? = some f → (chan f.channel).chanMutex = none
  alone : ∀ j f, j < i → es[j]? = some f → (chan f.channel).isUnbuffered = true →
    (chan f.channel).selectors f.dir.flip = [] ∧ ∀ g ∈ es, g.channel = f.channel → g.dir = f.dir
  reported : (chan e.channel).closedFlag = true → (chan e.channel).isUnbuffered = false

omit [DecidableEq τ] [Fintype τ] in
theorem enrolled_alone {f : Entry χ α} :
    ((s.enrolled t es).chan f.channel).selectors f.dir.flip = [] ↔
      (s.chan f.channel).selectors f.dir.flip = [] ∧
        ∀ g ∈ es, g.channel = f.channel → g.dir = f.dir := by
  have hother (g : Entry χ α) : ¬ g.at f.channel f.dir.flip ↔
      (g.channel = f.channel → g.dir = f.dir) := by
    simp only [Entry.at, decide_eq_true_iff, not_and, eq_comm (a := f.channel)]
    refine forall_congr' fun _ => ?_
    cases f.dir <;> cases g.dir <;> simp [Dir.flip]
  simp only [State.enrolled, State.listing, withSelectors, List.append_eq_nil_iff,
    List.replicate_eq_nil_iff, List.countP_eq_zero, hother]

omit [DecidableEq τ] [Fintype τ] in
theorem clear_iff (he : es[i]? = some e) (hes : s.entries t = es) : Clear s.chan es i e ↔
    (∀ j < i, (s.enrolled t es).passable t j) ∧ (s.chan e.channel).chanMutex = none ∧
      ((s.chan e.channel).closedFlag = true → (s.chan e.channel).isUnbuffered = false) := by
  have hentries : (s.enrolled t es).entries t = es := hes
  constructor
  · intro h
    refine ⟨fun j hj f hf => ?_, h.free i e le_rfl he, h.reported⟩
    rw [hentries] at hf
    exact ⟨h.free j f hj.le hf, fun hu => enrolled_alone.mpr (h.alone j f hj hf hu)⟩
  · rintro ⟨hpass, hfree, hreported⟩
    refine ⟨fun j f hj hf => ?_, fun j f hj hf hu => ?_, hreported⟩
    · rcases hj.lt_or_eq with hlt | rfl
      · exact (hpass j hlt f (by rw [hentries]; exact hf)).1
      · cases he.symm.trans hf
        exact hfree
    · exact enrolled_alone.mp ((hpass j hj f (by rw [hentries]; exact hf)).2 hu)

theorem step_call (hpc : s.pc t = .idle) (k : Call χ α) :
    s.step (.call t k) = some (.called t (s.calls t + 1) k, s.start t k) := by
  simp [State.step, hpc]

theorem started_iff (hpc : s.pc t = .register 0) (hes : s.entries t = es)
    (hnone : s.selIdx t = none) (habsent : ∀ c d, t ∉ (s.chan c).selectors d)
    (hpartner : ∀ c d, (s.chan c).partnerActive d →
      ∃ partner, (s.chan c).unbufData = some partner ∧ partner.1 ≠ t)
    (hoffered : ∀ c d, ¬ (s.chan c).partnerActive d → (s.chan c).unbufStage = 1 →
      (s.chan c).activeUnbufOp = some d)
    (he : es[i]? = some e) (hready : (s.chan e.channel).proceeds e.dir)
    (hfirst : ∀ j f, j < i → es[j]? = some f → ¬ (s.chan f.channel).proceeds f.dir) :
    Inevitably (runs t) (Picked s t i e) s ↔ Clear s.chan es i e := by
  have hentries : (s.enrolled t es).entries t = es := hes
  have hlength : i ≤ ((s.enrolled t es).entries t).length := by
    rw [hentries]
    exact (List.getElem?_eq_some_iff.mp he).1.le
  have hscan := scan_iff (s := s.enrolled t es) (t := t)
    (fun u (hu : Picked s t i e u) => picked_returns hu) hlength
    (fun j f hj hf => hfirst j f hj (by rwa [hentries] at hf))
    fun j f hj hf hu hstage => by
      rw [hentries] at hf
      obtain ⟨-, hnot, -⟩ := not_proceeds (o := f.op j) (hfirst j f hj hf)
      exact hoffered _ _ (hnot hu) hstage
  have hreached : (s.enrolled t es).goto t ((s.enrolled t es).scanAt t i) = s.reached t es e i := by
    rw [scanAt_entry (s := s.enrolled t es) (hes ▸ he)]
    rfl
  rw [hreached, reached_iff hnone hes habsent hready (hpartner _ _)] at hscan
  rw [clear_iff he hes, ← hscan]
  exact enrolled_iff (fun _ => picked_returns) hpc hes

section
variable {size : χ → Nat} {tr : List (Event (State τ χ α) (Action τ χ α) (Label τ χ α))}
  (h : Run (system size) tr s)
include h

theorem idle_absent (ht : s.pc t = .idle) (c : χ) (d : Dir) : t ∉ (s.chan c).selectors d := by
  refine List.count_eq_zero.mp ((run_enrolled h).absent ?_ c d)
  rw [ht]
  rfl

theorem idle_partner (ht : s.pc t = .idle) {c : χ} {d : Dir}
    (hactive : (s.chan c).partnerActive d) :
    ∃ partner, (s.chan c).unbufData = some partner ∧ partner.1 ≠ t := by
  cases (run_sound h).handshake c with
  | free stage => exact absurd (stage.symm.trans hactive.1) (by simp)
  | met u o stage => exact absurd (stage.symm.trans hactive.1) (by simp)
  | offered u o stage stays alone active data =>
    refine ⟨_, data, ?_⟩
    rintro rfl
    rw [ht] at stays
    cases stays

theorem offered_same {c : χ} {d : Dir} (hnot : ¬ (s.chan c).partnerActive d)
    (hstage : (s.chan c).unbufStage = 1) : (s.chan c).activeUnbufOp = some d := by
  cases (run_sound h).handshake c with
  | free stage => exact absurd (stage.symm.trans hstage) (by simp)
  | met u o stage => exact absurd (stage.symm.trans hstage) (by simp)
  | offered u o stage stays alone active data =>
    by_cases hd : o.dir = d
    · rw [active, hd]
    · exact absurd ⟨hstage, active.trans (congrArg some (flip_of_ne hd))⟩ hnot

theorem select_first_ready {l : Label τ χ α} (hcall : s.step (.call t (.select es)) = some (l, u))
    (he : es[i]? = some e) (hready : (s.chan e.channel).proceeds e.dir)
    (hfirst : ∀ j f, j < i → es[j]? = some f → ¬ (s.chan f.channel).proceeds f.dir) :
    Inevitably (runs t) (Picked u t i e) u ↔ Clear s.chan es i e := by
  cases stepped_of_step hcall with
  | call t k ht =>
    have hne : es ≠ [] := by
      rintro rfl
      simp at he
    have hchan := start_chan s t (.select es)
    rw [← hchan] at hready hfirst ⊢
    refine started_iff ?_ ?_ ?_ ?_ ?_ ?_ he hready hfirst
    · simp [State.start, hne]
    · simp [State.start, hne]
    · simp [State.start, hne]
    · rw [hchan]
      exact idle_absent h ht
    · rw [hchan]
      exact fun c d => idle_partner h ht
    · rw [hchan]
      exact fun c d => offered_same h

end

theorem select_first_ready_second :
    ∃ (tr : List (Event (State (Fin 2) Bool Nat) _ _)) (s u : _) (l : _),
      Run (system fun c => cond c 1 0) tr s ∧
        s.step (.call 0 (.select [⟨false, .recv, 0⟩, ⟨true, .recv, 0⟩])) = some (l, u) ∧
        Inevitably (runs 0) (Picked u 0 1 ⟨true, .recv, 0⟩) u := by
  let go (t : Fin 2) : Action (Fin 2) Bool Nat := .run t fun _ => true
  obtain ⟨tr, s, hr, -, hpc, hready, hnot, hfree, hfree', hopen, halone⟩ :=
    replay_run (M := system fun c => cond c 1 0) (initial_init (fun c : Bool => cond c 1 0) 0)
      [.call 1 (.send true 5), go 1, go 1, go 1]
      (fun _ s => s.pc 0 = .idle ∧ (s.chan true).proceeds .recv ∧
        ¬ (s.chan false).proceeds .recv ∧ (s.chan true).chanMutex = none ∧
        (s.chan false).chanMutex = none ∧ (s.chan true).closedFlag = false ∧
        (s.chan false).selectors .send = [])
      (by decide +kernel)
  have hcall := step_call hpc (.select [⟨false, .recv, 0⟩, ⟨true, .recv, 0⟩])
  refine ⟨tr, s, _, _, hr, hcall, (select_first_ready hr hcall rfl hready ?_).mpr ⟨?_, ?_, ?_⟩⟩
  · rintro (_ | j) f hj he
    · cases he
      exact hnot
    · omega
  · rintro (_ | _ | j) f hj he
    · cases he
      exact hfree'
    · cases he
      exact hfree
    · omega
  · rintro (_ | j) f hj he hu
    · cases he
      exact ⟨halone, by simp⟩
    · omega
  · simp [hopen]

-- `*sel_idx` is not set for a closed unbuffered channel
theorem select_unreported :
    ∃ (tr : List (Event (State (Fin 1) Unit Nat) _ _)) (s u : _) (l : _),
      Run (system fun _ => 0) tr s ∧ (s.chan ()).proceeds .send ∧
        s.step (.call 0 (.select [⟨(), .send, 7⟩])) = some (l, u) ∧
        ¬ Inevitably (runs 0) (Picked u 0 0 ⟨(), .send, 7⟩) u ∧
        ∃ tr' s', Run (system fun _ => 0) (tr ++ tr') s' ∧
          s'.pc 0 = .ret (some ⟨.select, .send, (), 0⟩) .closedError ∧ s'.selIdx 0 = none := by
  let go : Action (Fin 1) Unit Nat := .run 0 fun _ => true
  obtain ⟨tr, s, hr, -, hpc, hready, hclosed, hunbuffered, hfree, hrest⟩ :=
    replay_run (M := system fun _ => 0) (initial_init (fun _ : Unit => 0) 0)
      [.call 0 (.close ()), go, go, go, go, go, go, go, go]
      (fun _ s => s.pc 0 = .idle ∧ (s.chan ()).proceeds .send ∧ (s.chan ()).closedFlag = true ∧
        (s.chan ()).isUnbuffered = true ∧ (s.chan ()).chanMutex = none ∧
        ((system fun _ => 0).replay s [.call 0 (.select [⟨(), .send, 7⟩]), go, go, go, go, go]).any fun r =>
            decide (r.2.pc 0 = .ret (some ⟨.select, .send, (), 0⟩) .closedError ∧
              r.2.selIdx 0 = none))
      (by decide +kernel)
  obtain ⟨⟨tr', s'⟩, he, hlast⟩ := (Option.any_eq_true _ _).mp hrest
  refine ⟨tr, s, _, _, hr, hready, step_call hpc _, fun h => ?_, tr', s', (hr.replay he).1,
    of_decide_eq_true hlast⟩
  rw [enrolled_iff (fun _ => picked_returns) rfl rfl] at h
  exact reached_silent (s := s.start 0 (.select [⟨(), .send, 7⟩])) rfl hclosed hunbuffered hfree h

end OperatingSystems.Concurrency
