import OperatingSystems.Concurrency.AtomicQueues
import OperatingSystems.Concurrency.Selecting
import OperatingSystems.Concurrency.Wakeup

namespace OperatingSystems.Concurrency
open Calling Channel Transition

variable {τ χ α : Type}

def State.result (s : State τ χ α) (t : τ) (o : Option (Op χ)) (st : Status) : Result α :=
  ⟨st, s.selIdx t, if st = .success then o.map fun o => s.data t o.index else none⟩

-- before `*sel_idx = i`
def Pc.unmarked : Pc χ → Bool
  | .idle => false
  | .cleanup _ _ _ => false
  | .ret _ _ => false
  | _ => true

def Unmarked (s : State τ χ α) : Prop := ∀ t, (s.pc t).unmarked = true → s.selIdx t = none

theorem closed_outcome {ch : Channel τ α} {o : Op χ} {v : α} {p : Point}
    (h : Outcome ch o v p .closed) : ch.closedFlag = true ∧ (p = .lock ∨ ch.transfer o.dir v = none) := by
  cases h with
  | shut lock closed => exact ⟨closed, .inl lock⟩
  | closedRetry _ _ failed closed => exact ⟨closed, .inr failed⟩

section
variable {size : χ → Nat} {queue : χ → List α} {ch : Channel τ α} {c : χ} {d : Dir} {v w : α}
  {b : Buffer α} [DecidableEq χ]

theorem take_transfer (hqueue : queue c = ch.buffer.contents) (hvalid : ch.buffer.Valid)
    (hcap : ch.buffer.capacity = size c) (h : ch.transfer d v = some (b, w)) :
    (d.offer c v).take size queue = some (w, Function.update queue c b.contents) := by
  cases d with
  | send =>
    obtain ⟨rfl, hadd⟩ := transfer_send h
    obtain ⟨-, hcontents, -, -, hroom⟩ := Buffer.add_spec hvalid hadd
    simp [Dir.offer, Offer.take, hqueue, hcontents, ← hcap, hroom]
  | recv =>
    obtain ⟨-, hcontents, -, -⟩ := Buffer.remove_spec hvalid (transfer_recv h)
    simp [Dir.offer, Offer.take, hqueue, hcontents]

theorem take_stuck (hqueue : queue c = ch.buffer.contents) (hcap : ch.buffer.capacity = size c)
    (h : ch.stuck d) : (d.offer c v).take size queue = none := by
  cases d with
  | send =>
    have hfull : ch.buffer.capacity ≤ ch.buffer.size := h
    simp [Dir.offer, Offer.take, hqueue, ← hcap, hfull]
  | recv =>
    have hempty : ch.buffer.contents = [] :=
      List.eq_nil_of_length_eq_zero ((Buffer.length_contents _).trans h)
    simp [Dir.offer, Offer.take, hqueue, hempty]

end

theorem owned_offer [DecidableEq χ] {size : χ → Nat} {s : State τ χ α} {t : τ} {o : Op χ} (hs : Sound size s) (ho : Owned (s.entries t) o) :
    ((s.entries t).map Entry.offer)[o.index]? =
      some (o.dir.offer o.chan (s.data t o.index)) := by
  obtain ⟨e, he, hc, hd, hv⟩ := requested hs ho
  rw [List.getElem?_map, he, Option.map_some, Entry.offer, hc, hd]
  cases hdir : o.dir with
  | send => rw [hv hdir]
  | recv => rfl

variable [DecidableEq τ]

def State.phase (s : State τ χ α) (t : τ) : Phase χ α :=
  let offers := (s.entries t).map Entry.offer
  match s.pc t with
  | .idle => .idle
  | .enter p o => .asking o.mode (p = .wait .retry) offers
  | .publish o => .asking o.mode false offers
  | .register _ => .asking .select false offers
  | .semWait => .asking .select false offers
  | .notify o => .answered ((s.finish t o .success).result t (some o) .success)
  | .signal o => .answered ((s.finish t o .success).result t (some o) .success)
  | .cleanup _ o st => .answered (s.result t (some o) st)
  | .ret o st => .answered (s.result t o st)
  | .closeLock c => .closing c
  | .closeNotify _ _ => .answered ⟨.success, none, none⟩
  | .closeBroadcast _ _ => .answered ⟨.success, none, none⟩

def State.queues (s : State τ χ α) : Queues τ χ α where
  queue := fun c => (s.chan c).buffer.contents
  closed := fun c => (s.chan c).closedFlag
  phase := s.phase

theorem finish_selIdx (s : State τ χ α) (t : τ) (o : Op χ) (st : Status) :
    (s.finish t o st).selIdx t = if o.mode = .select then some o.index else s.selIdx t := by
  unfold State.finish
  cases o.mode <;> simp

theorem leave_unmarked (o : Op χ) (st : Status) : (o.leave st).unmarked = false := by
  rcases leave_cases o st with ⟨-, h⟩ | ⟨-, h⟩ <;> rw [h] <;> rfl

theorem leave_phase {s : State τ χ α} {t : τ} {o : Op χ} {st : Status}
    (hpc : s.pc t = o.leave st) : s.phase t = .answered (s.result t (some o) st) := by
  unfold State.phase
  rcases leave_cases o st with ⟨-, h⟩ | ⟨-, h⟩ <;> rw [hpc, h]

theorem scanAt_phase {s s' : State τ χ α} {t : τ} {i : Nat} (hpc : s'.pc t = s.scanAt t i)
    (hes : s'.entries t = s.entries t) :
    s'.phase t = .asking .select false ((s.entries t).map Entry.offer) := by
  unfold State.phase
  rcases scanAt_cases s t i with ⟨e, -, h⟩ | ⟨-, h⟩ <;> rw [hpc, h] <;> simp [hes]

theorem phase_congr {s s' : State τ χ α} {t : τ} (hpc : s'.pc t = s.pc t)
    (hes : s'.entries t = s.entries t) (hidx : s'.selIdx t = s.selIdx t)
    (hdata : (s.pc t).op = none → s'.data t = s.data t) : s'.phase t = s.phase t := by
  have hresult (ho : (s.pc t).op = none) (o : Option (Op χ)) (st : Status) :
      s'.result t o st = s.result t o st := by
    simp [State.result, hidx, hdata ho]
  have hfinish (ho : (s.pc t).op = none) (o : Op χ) (st : Status) :
      (s'.finish t o st).result t (some o) st = (s.finish t o st).result t (some o) st := by
    simp [State.result, finish_selIdx, hidx, hdata ho]
  unfold State.phase
  rw [hpc]
  cases h : s.pc t with
  | notify o | signal o => simp [hfinish (by rw [h]; rfl)]
  | cleanup i o st | ret o st => simp [hresult (by rw [h]; rfl)]
  | _ => simp [hes]

theorem start_phase {s : State τ χ α} {t : τ} (k : Call χ α) : (s.start t k).phase t = k.phase := by
  unfold State.start
  cases k with
  | select es =>
    by_cases hes : es = [] <;> simp [State.phase, Call.phase, hes, State.result]
  | close c => simp [State.phase, Call.phase]
  | _ => simp [State.phase, Call.phase, Entry.offer, Dir.offer]

theorem start_unmarked {s : State τ χ α} {t : τ} (k : Call χ α) : (s.start t k).selIdx t = none := by
  unfold State.start
  cases k with
  | select es => by_cases hes : es = [] <;> simp [hes]
  | _ => simp

theorem queues_enter {s s' : State τ χ α} {t : τ} {p : Phase χ α}
    (hbuffer : ∀ c, (s'.chan c).buffer = (s.chan c).buffer)
    (hclosed : ∀ c, (s'.chan c).closedFlag = (s.chan c).closedFlag)
    (hother : ∀ u, u ≠ t → s'.phase u = s.phase u) (hphase : s'.phase t = p) :
    s'.queues = s.queues.enter t p := by
  ext1
  · funext c
    simp [State.queues, hbuffer]
  · funext c
    simp [State.queues, hclosed]
  · funext u
    by_cases hu : u = t
    · subst hu
      simpa [State.queues] using hphase
    · simpa [State.queues, hu] using hother u hu

theorem queues_same {s s' : State τ χ α} {t : τ} (hbuffer : ∀ c, (s'.chan c).buffer = (s.chan c).buffer)
    (hclosed : ∀ c, (s'.chan c).closedFlag = (s.chan c).closedFlag)
    (hother : ∀ u, u ≠ t → s'.phase u = s.phase u) (hphase : s'.phase t = s.phase t) :
    s'.queues = s.queues := by
  rw [queues_enter hbuffer hclosed hother hphase]
  ext1
  · rfl
  · rfl
  · exact Function.update_eq_self t s.phase

variable [DecidableEq χ] {size : χ → Nat} {s s' : State τ χ α} {a : Action τ χ α}
  {l : Label τ χ α}

structure Buffered (size : χ → Nat) (s : State τ χ α) : Prop where
  sound : Sound size s
  unmarked : Unmarked s
  sized : ∀ c, size c ≠ 0
  valid : ∀ c, (s.chan c).buffer.Valid
  capacity : ∀ c, (s.chan c).buffer.capacity = size c

theorem Buffered.stuck {c : χ} {d : Dir} (hb : Buffered size s) (v : α)
    (h : (s.chan c).stuck d) : (d.offer c v).take size s.queues.queue = none :=
  take_stuck rfl (hb.capacity c) h

theorem init_queues (h : Init size s) : (queues size).init s.queues := by
  refine ⟨fun c => ?_, fun c => ?_, fun t => ?_⟩
  · obtain ⟨g, hg⟩ := h.chan c
    simp [State.queues, hg, Channel.create, Buffer.create, Buffer.contents]
  · obtain ⟨g, hg⟩ := h.chan c
    simp [State.queues, hg, Channel.create]
  · simp [State.queues, State.phase, h.pc t]

theorem queues_call {t : τ} {k : Call χ α} (hpc : s.pc t = .idle) :
    (queues size).call s.queues t k = some (s.start t k).queues := by
  have hother : ∀ u, u ≠ t → (s.start t k).phase u = s.phase u := by
    intro u hu
    obtain ⟨hes, -, hidx, hdata⟩ := start_other s t hu k
    obtain ⟨p, hp⟩ := start_pc s t k
    exact phase_congr (by rw [hp, Function.update_of_ne hu]) hes hidx fun _ => hdata
  rw [queues_enter (by simp) (by simp) hother (start_phase k)]
  simp [queues, State.queues, State.phase, hpc]

theorem queues_ret {t : τ} {o : Option (Op χ)} {st : Status} (hpc : s.pc t = .ret o st) :
    (queues size).ret s.queues t = some (s.result t o st, (s.goto t .idle).queues) := by
  have hother : ∀ u, u ≠ t → (s.goto t .idle).phase u = s.phase u := by
    intro u hu
    exact phase_congr (Function.update_of_ne hu _ _) rfl rfl fun _ => rfl
  have hs' : (s.goto t .idle).queues = s.queues.enter t .idle :=
    queues_enter (fun _ => rfl) (fun _ => rfl) hother (by simp [State.phase])
  rw [hs']
  simp [queues, State.queues, State.phase, hpc]

variable [Fintype τ]

theorem stepped_phase (hs : Sound size s) (h : Stepped s a l s') {u : τ} (hu : u ≠ a.actor) :
    s'.phase u = s.phase u := by
  have hf := stepped_frame h
  have hcall : ∀ k, a ≠ .call u k := by
    rintro k rfl
    exact hu rfl
  refine phase_congr (hf.pc u hu) (hf.entries u hu) (stepped_selIdx h hu) fun ho => ?_
  funext i
  rcases stepped_cell hs.handshake h hcall i with hd | ⟨o, ho', -⟩
  · exact hd
  · rw [ho] at ho'
    cases ho'

theorem stepped_unmarked (hm : Unmarked s) (h : Stepped s a l s') : Unmarked s' := by
  have hf := stepped_frame h
  intro u hu
  by_cases hua : u = a.actor
  · subst hua
    cases h with
    | call t k => exact start_unmarked k
    | spurious t w o hpc => exact hm t hu
    | critical t wake p o m l s' hpc hadm hout hact =>
      have hbefore := hm t (by rw [hpc]; rfl)
      rw [Action.actor, acted_pc hact, Function.update_self] at hu
      cases hact with
      | closedBuffered | exchange | complete | closedUnbuffered =>
        simp [Op.next, leave_unmarked] at hu
      | _ => simpa using hbefore
    | signal t wake o hpc => simp [leave_unmarked] at hu
    | cleaned | cleanup | ret => simp [State.removeSelect, Pc.unmarked] at hu
    | publish t wake o hpc | notify t wake o hpc | closeAgain t wake c hpc | close t wake c hpc
    | closeNotify t wake d c hpc | closeBroadcast t wake k c hpc | register t wake i e hpc
    | registered t wake i hpc | semWait t wake hpc => exact hm t (by rw [hpc]; rfl)
  · rw [stepped_selIdx h hua]
    rw [hf.pc u hua] at hu
    exact hm u hu

theorem critical_queues {t : τ} {p : Point} {o : Op χ} {m : Move α} (hb : Buffered size s)
    (hpc : s.pc t = .enter p o)
    (hout : Outcome ((s.chan o.chan).arrive o.dir p) o (s.data t o.index) p m)
    (hact : Acted s t o ((s.chan o.chan).arrive o.dir p)
      (((s.chan o.chan).arrive o.dir p).after t o m) m l s')
    (hother : ∀ u, u ≠ t → s'.phase u = s.phase u) :
    s'.queues = s.queues ∨ ∃ k, Committed size s.queues k s'.queues := by
  have hfit := hb.sound.shape.fits t
  rw [hpc] at hfit
  have hkind := hb.sound.shape.kind o.chan
  have hphase : s.queues.phase t =
      .asking o.mode (p = .wait .retry) ((s.entries t).map Entry.offer) := by
    simp [State.queues, State.phase, hpc]
  have hoffer := owned_offer hb.sound hfit.1
  have hidx : s.selIdx t = none := hb.unmarked t (by rw [hpc]; rfl)
  have hchan := acted_chan hact
  have hclosed (c : χ) : (s'.chan c).closedFlag = (s.chan c).closedFlag := by
    rw [hchan]
    exact update_chan Channel.closedFlag (by simp)
  have kept (hm : ∀ b v, m ≠ .transfer b v) (c : χ) : (s'.chan c).buffer = (s.chan c).buffer := by
    rw [hchan]
    refine update_chan Channel.buffer ?_
    cases m <;> simp [after_buffer] at hm ⊢
  have held (hopen : (s.chan o.chan).closedFlag = false)
      (hstuck : ((s.chan o.chan).arrive o.dir p).stuck o.dir) (hm : o.mode ≠ .select) :
      ∀ f ∈ (s.entries t).map Entry.offer, s.queues.holdsOff size f := by
    intro f hf
    obtain ⟨e, he, rfl⟩ := List.mem_map.mp hf
    obtain ⟨hec, hed⟩ := hfit.1.plain hm e he
    refine ⟨by simpa [Entry.offer, hec, State.queues] using hopen, ?_⟩
    rw [Entry.offer, hec, hed, hb.stuck _ ((stuck_congr (arrive_buffer _ _ _) o.dir).mp hstuck)]
    rfl
  cases outcome_buffered (hb.sized o.chan) (by simpa using hkind) hfit.2 hout with
  | shut closed =>
    obtain ⟨hc, hwhen⟩ := closed_outcome hout
    refine .inr ⟨.deny t o.index, ?_⟩
    have hs' : s' = (s.setChan o.chan
        (((s.chan o.chan).arrive o.dir p).after t o .closed)).finish t o .closedError := by
      cases hact with
      | closedUnbuffered hu => simp [hkind, hb.sized o.chan] at hu
      | closedBuffered => rfl
    have hpc' : s'.pc t = o.leave .closedError := by simp [hs']
    rw [queues_enter (kept (by simp)) hclosed hother (leave_phase hpc')]
    have hresult : s'.result t (some o) .closedError =
        ⟨.closedError, o.mode.index o.index, none⟩ := by
      simp [State.result, hs', finish_selIdx, hidx, Mode.index]
    rw [hresult]
    refine .deny t o.index hphase hoffer (by simpa [State.queues] using hc) fun hw => ?_
    rcases hwhen with rfl | hfail
    · simp at hw
    · exact hb.stuck _ ((stuck_congr (arrive_buffer _ _ _) o.dir).mp (transfer_eq_none.mp hfail))
  | transfer b w attempts done =>
    refine .inr ⟨.take t o.index, ?_⟩
    have htaken : (o.dir.offer o.chan (s.data t o.index)).take size s.queues.queue =
        some (w, Function.update s.queues.queue o.chan b.contents) :=
      take_transfer (by simp [State.queues]) (by simpa using hb.valid o.chan)
        (by simpa using hb.capacity o.chan) done
    have hs' : s'.queues = { s.queues with
        queue := Function.update s.queues.queue o.chan b.contents }.answer t .success
          (o.mode.index o.index) (some w) := by
      cases hact
      ext1
      · funext c
        by_cases hc : c = o.chan
        · subst hc
          simp [State.queues, after_buffer]
        · simp [State.queues, hc]
      · funext c
        exact hclosed c
      · funext u
        by_cases hu : u = t
        · subst hu
          simp [State.queues, State.phase, State.result, finish_selIdx, hidx, Mode.index]
        · simpa [State.queues, hu] using hother u hu
    rw [hs']
    refine .take t o.index hphase hoffer ?_ htaken
    rcases attempts with ⟨-, hopen, -⟩ | rfl
    · exact .inl (by simpa [State.queues] using hopen)
    · exact .inr (by simp)
  | refuse lock isOpen mode stuck =>
    subst lock
    rcases refused_cases s t o with ⟨hm, hr⟩ | ⟨hm, hr⟩
    · have hmode : o.mode = .nonblocking := by
        cases h : o.mode <;> simp_all
      refine .inr ⟨.refuse t, ?_⟩
      have hpc' : s'.pc t = .ret (some o) .channelFull := by
        rw [acted_pc hact, Function.update_self]
        exact hr
      have hphase' : s'.phase t = .answered ⟨.channelFull, none, none⟩ := by
        have hidx' : s'.selIdx t = none := by
          cases hact
          exact hidx
        simp [State.phase, hpc', State.result, hidx']
      rw [queues_enter (kept (by simp)) hclosed hother hphase']
      rw [hmode] at hphase
      exact .refuse t hphase (held (by simpa using isOpen) stuck hm)
    · have hpc' : s'.pc t = s.scanAt t (o.index + 1) := by
        rw [acted_pc hact, Function.update_self]
        exact hr
      refine .inl (queues_same (kept (by simp)) hclosed hother ?_)
      rw [scanAt_phase hpc' (by rw [acted_entries hact])]
      simp [State.phase, hpc, hm]
  | retry isOpen mode stuck =>
    have hpc' : s'.pc t = .enter (.wait .retry) o := by
      rw [acted_pc hact, Function.update_self]
      rfl
    have hphase' : s'.phase t = .asking .blocking true ((s.entries t).map Entry.offer) := by
      simp [State.phase, hpc', acted_entries hact, mode]
    rw [queues_enter (kept (by simp)) hclosed hother hphase']
    by_cases hp : p = .wait .retry
    · left
      ext1
      · rfl
      · rfl
      · refine (Function.update_eq_self_iff).mpr ?_
        simp [hphase, hp, mode]
    · right
      refine ⟨.wait t, .wait t (by simpa [hp, mode] using hphase) (held (by simpa using isOpen) stuck ?_)⟩
      simp [mode]

theorem stepped_queues (hb : Buffered size s) (h : Stepped s a l s')
    (hcall : ∀ t k, a ≠ .call t k) (hret : ∀ o st, s.pc a.actor ≠ .ret o st) :
    s'.queues = s.queues ∨ ∃ k, Committed size s.queues k s'.queues := by
  have hother := fun u hu => stepped_phase hb.sound h (u := u) hu
  cases h with
  | call t k => exact absurd rfl (hcall t k)
  | ret t wake o st hpc => exact absurd hpc (hret o st)
  | spurious t w o hpc =>
    refine .inl (queues_same (t := t) (fun _ => rfl) (fun _ => rfl) hother ?_)
    simp [State.phase, hpc]
  | critical t wake p o m l s' hpc hadm hout hact => exact critical_queues hb hpc hout hact hother
  | publish t wake o hpc =>
    have hfit := hb.sound.shape.fits t
    rw [hpc] at hfit
    exact absurd hfit.2 (hb.sized o.chan)
  | closeAgain t wake c hpc hfree hclosed =>
    refine .inr ⟨.close t, ?_⟩
    have hidx := hb.unmarked t (by rw [hpc]; rfl)
    have hs' : (s.goto t (.ret none .closedError)).queues =
        s.queues.answer t .closedError none none :=
      queues_enter (fun _ => rfl) (fun _ => rfl) hother
        (by simp [State.phase, State.result, hidx])
    rw [hs']
    exact .closeAgain t (by simp [State.queues, State.phase, hpc]) hclosed
  | close t wake c hpc hfree hopen =>
    refine .inr ⟨.close t, ?_⟩
    have hs' : ((s.setChan c { s.chan c with closedFlag := true }).goto t
        (.closeNotify .recv c)).queues =
          { s.queues with closed := Function.update s.queues.closed c true }.answer t .success none
            none := by
      ext1
      · funext c'
        exact congrArg Buffer.contents (update_chan Channel.buffer rfl)
      · funext c'
        by_cases hc : c' = c
        · subst hc
          simp [State.queues]
        · simp [State.queues, hc]
      · funext u
        by_cases hu : u = t
        · subst hu
          simp [State.queues, State.phase]
        · simpa [State.queues, hu] using hother u hu
    rw [hs']
    exact .close t (by simp [State.queues, State.phase, hpc]) hopen
  | closeNotify t wake d c hpc =>
    refine .inl (queues_same (t := t) (fun _ => rfl) (fun _ => rfl) hother ?_)
    cases d <;> simp [State.phase, hpc]
  | closeBroadcast t wake k c hpc =>
    have hidx := hb.unmarked t (by rw [hpc]; rfl)
    refine .inl (queues_same (t := t) (fun _ => rfl) (fun _ => rfl) hother ?_)
    cases k <;> simp [State.phase, hpc, Cond.nextInClose, State.result, State.broadcast, hidx]
  | register t wake i e hpc he =>
    refine .inl (queues_same (t := t) (fun c => update_chan Channel.buffer rfl)
      (fun c => update_chan Channel.closedFlag rfl) hother ?_)
    simp [State.phase, hpc, State.addSelect]
  | cleanup t wake i o st e hpc he =>
    refine .inl (queues_same (t := t) (fun c => update_chan Channel.buffer rfl)
      (fun c => update_chan Channel.closedFlag rfl) hother ?_)
    simp [State.phase, hpc, State.removeSelect, State.result]
  | registered t wake i hpc | semWait t wake hpc =>
    refine .inl (queues_same (t := t) (fun _ => rfl) (fun _ => rfl) hother ?_)
    refine (scanAt_phase (s := s) (i := 0) ?_ ?_).trans ?_
    · simp
    · rfl
    · simp [State.phase, hpc]
  | signal t wake o hpc =>
    refine .inl (queues_same (t := t) (fun _ => by simp) (fun _ => by simp) hother ?_)
    have hpc' : ((s.wake o.chan o.dir.announces wake).finish t o .success).pc t =
        o.leave .success := by simp
    rw [leave_phase hpc']
    simp [State.phase, hpc, State.result, finish_selIdx]
  | notify t wake o hpc =>
    refine .inl (queues_same (t := t) (fun _ => rfl) (fun _ => rfl) hother ?_)
    simp [State.phase, hpc, State.result, finish_selIdx]
  | cleaned t wake i o st hpc =>
    refine .inl (queues_same (t := t) (fun _ => rfl) (fun _ => rfl) hother ?_)
    simp [State.phase, hpc, State.result]

-- `channel.c` as the threads call it
def threads (size : χ → Nat) :
    Service (State τ χ α) τ (Call χ α) (Result α) (Action τ χ α) where
  init := Init size
  call s t k := (s.step (.call t k)).map Prod.snd
  run s
    | .call _ _ => none
    | .run t wake =>
      match s.pc t with
      | .ret _ _ => none
      | _ => (s.step (.run t wake)).map Prod.snd
    | .spurious t => (s.step (.spurious t)).map Prod.snd
  ret s t :=
    match s.pc t with
    | .ret o st => some (s.result t o st, s.goto t .idle)
    | _ => none

theorem threads_run (h : (threads size).run s a = some s') :
    ∃ l, s.step a = some (l, s') ∧ (∀ t k, a ≠ .call t k) ∧ ∀ o st, s.pc a.actor ≠ .ret o st := by
  cases a with
  | call t k => cases h
  | spurious t =>
    obtain ⟨⟨l, u⟩, hu, he⟩ := Option.map_eq_some_iff.mp h
    cases he
    refine ⟨l, hu, by simp, fun o st hpc => ?_⟩
    simp only [State.step, show s.pc t = .ret o st from hpc] at hu
    cases hu
  | run t wake =>
    simp only [threads] at h
    split at h
    · cases h
    · rename_i hpc
      obtain ⟨⟨l, u⟩, hu, he⟩ := Option.map_eq_some_iff.mp h
      cases he
      exact ⟨l, hu, by simp, hpc⟩

theorem threads_ret {t : τ} {r : Result α} (h : (threads size).ret s t = some (r, s')) :
    ∃ o st, s.pc t = .ret o st ∧ r = s.result t o st ∧ s' = s.goto t .idle := by
  simp only [threads] at h
  split at h
  · rename_i o st hpc
    cases h
    exact ⟨o, st, hpc, rfl, rfl⟩
  · cases h

theorem visited_run (h : (threads size).Visited s) : ∃ tr, Run (system size) tr s := by
  induction h with
  | init hi => exact ⟨[], .start hi⟩
  | @call s s' t k _ hs ih =>
    obtain ⟨tr, hr⟩ := ih
    obtain ⟨⟨l, u⟩, hu, he⟩ := Option.map_eq_some_iff.mp hs
    cases he
    have hstep : (system size).step s (.call t k) = some (l, u) := hu
    exact ⟨_, hr.next hstep⟩
  | @run s s' a _ hs ih =>
    obtain ⟨tr, hr⟩ := ih
    obtain ⟨l, hu, -⟩ := threads_run hs
    have hstep : (system size).step s a = some (l, s') := hu
    exact ⟨_, hr.next hstep⟩
  | @ret s s' t r _ hs ih =>
    obtain ⟨tr, hr⟩ := ih
    obtain ⟨o, st, hpc, -, rfl⟩ := threads_ret hs
    have hstep : (system size).step s (.run t fun _ => false) =
        some (.returned t (s.calls t) o st, s.goto t .idle) := by
      simp [system, State.step, State.run, hpc]
    exact ⟨_, hr.next hstep⟩

theorem visited_buffered (hsize : ∀ c, size c ≠ 0) (h : (threads size).Visited s) :
    Buffered size s := by
  obtain ⟨tr, hr⟩ := visited_run h
  have hq := fun c => run_queue hr (hsize c)
  exact ⟨run_sound hr, hr.always (P := Unmarked) (fun s hi t ht => by simp [hi.pc t, Pc.unmarked] at ht)
    fun _ _ _ _ hm hs => stepped_unmarked hm (stepped_of_step hs), hsize,
    fun c => (hq c).valid, fun c => (hq c).capacity⟩

theorem queues_simulate (hsize : ∀ c, size c ≠ 0) :
    Simulates (threads size) (queues size) fun (s : State τ χ α) q => q = s.queues where
  init s hi := ⟨s.queues, init_queues hi, rfl⟩
  call s s' q t k hv hq hs := by
    subst hq
    obtain ⟨⟨l, u⟩, hu, he⟩ := Option.map_eq_some_iff.mp hs
    cases he
    cases stepped_of_step hu with
    | call t k hpc => exact ⟨_, _, queues_call hpc, .refl, rfl⟩
  run s s' q a hv hq hs := by
    subst hq
    obtain ⟨l, hstep, hcall, hret⟩ := threads_run hs
    refine ⟨_, ?_, rfl⟩
    rcases stepped_queues (visited_buffered hsize hv) (stepped_of_step hstep) hcall hret with
      hsame | ⟨k, hk⟩
    · rw [hsame]
    · exact .single ⟨k, committed_iff.mpr hk⟩
  ret s s' q t r hv hq hs := by
    subst hq
    obtain ⟨o, st, hpc, rfl, rfl⟩ := threads_ret hs
    exact ⟨_, queues_ret hpc, rfl⟩

end OperatingSystems.Concurrency
