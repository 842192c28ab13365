import OperatingSystems.Stress.RingMessages

namespace OperatingSystems.SendRecv
open Calling Concurrency Tokens Transition

variable {n numMsgs b : Nat} {w w' : Ring n}

def Worker.left (l : Worker) : Bool :=
  match l.pc with
  | .exit => true
  | .exited => true
  | _ => false

def starters (w : Ring n) : Nat := ∑ i, (w.thread (.worker i)).start.toNat

-- each `NULL` of the main thread starts or stops one worker
structure Nulls (numMsgs : Nat) (w : Ring n) : Prop where
  starting : starters w = (w.queue .main).count 0 + (w.progress numMsgs).unstarted +
    (w.progress numMsgs).lost
  stopping : ∀ i : Fin n, (w.queue (.ring i)).count 0 + (w.thread (.worker i)).left.toNat =
    if i < (w.progress numMsgs).stopped then 1 else 0

theorem starters_set (w : Ring n) (queue : Chan n → List Nat) (closed : Chan n → Bool)
    (memory : Memory n) (i : Fin n) (l : Worker) :
    starters ({ w with queue := queue, closed := closed, memory := memory }.set (.worker i) l) +
      (w.thread (.worker i)).start.toNat = starters w + l.start.toNat := by
  have hrest : ∑ j ∈ Finset.univ.erase i,
      ((Function.update w.thread (.worker i) l (.worker j) : Worker)).start.toNat =
        ∑ j ∈ Finset.univ.erase i, (w.thread (.worker j)).start.toNat := by
    refine Finset.sum_congr rfl fun j hj => ?_
    simp [Finset.ne_of_mem_erase hj]
  simp only [starters, World.set_thread]
  rw [← Finset.add_sum_erase _ _ (Finset.mem_univ i), ← Finset.add_sum_erase _ _ (Finset.mem_univ i),
    hrest]
  simp
  omega

theorem Nulls.main (hn : Nulls numMsgs w) (queue : Chan n → List Nat) (closed : Chan n → Bool)
    (memory : Memory n) (l : Main)
    (starting : (queue .main).count 0 + (l.pc.progress n numMsgs).unstarted +
      (l.pc.progress n numMsgs).lost =
      (w.queue .main).count 0 + (w.progress numMsgs).unstarted + (w.progress numMsgs).lost)
    (stopping : ∀ i : Fin n,
      (queue (.ring i)).count 0 + (if i < (w.progress numMsgs).stopped then 1 else 0) =
        (w.queue (.ring i)).count 0 +
          if i < (l.pc.progress n numMsgs).stopped then 1 else 0) :
    Nulls numMsgs ({ w with queue := queue, closed := closed, memory := memory }.set .main l) := by
  refine ⟨?_, fun i => ?_⟩
  · have hsame : starters ({ w with queue := queue, closed := closed, memory := memory }.set .main l) =
        starters w := by simp [starters]
    rw [hsame, hn.starting]
    simpa [Ring.progress] using starting.symm
  · have hstop := stopping i
    have hbefore := hn.stopping i
    simp only [Ring.progress, World.set_queue, World.set_thread, Function.update_self,
      ne_eq, reduceCtorEq, not_false_eq_true, Function.update_of_ne] at hbefore hstop ⊢
    omega

theorem Nulls.worker (hn : Nulls numMsgs w) (queue : Chan n → List Nat) (closed : Chan n → Bool)
    (memory : Memory n) (i : Fin n) (l : Worker)
    (starting : (queue .main).count 0 + (w.thread (.worker i)).start.toNat =
      (w.queue .main).count 0 + l.start.toNat)
    (stopping : (queue (.ring i)).count 0 + l.left.toNat =
      (w.queue (.ring i)).count 0 + (w.thread (.worker i)).left.toNat)
    (others : ∀ j, j ≠ i → (queue (.ring j)).count 0 = (w.queue (.ring j)).count 0) :
    Nulls numMsgs
      ({ w with queue := queue, closed := closed, memory := memory }.set (.worker i) l) := by
  refine ⟨?_, fun j => ?_⟩
  · have hset := starters_set w queue closed memory i l
    have hbefore := hn.starting
    simp only [Ring.progress, World.set_queue, World.set_thread,
      ne_eq, reduceCtorEq, not_false_eq_true, Function.update_of_ne] at hbefore ⊢
    omega
  · have hbefore := hn.stopping j
    by_cases hj : j = i
    · subst hj
      simp only [Ring.progress, World.set_queue, World.set_thread, Function.update_self,
        ne_eq, reduceCtorEq, not_false_eq_true, Function.update_of_ne] at hbefore ⊢
      omega
    · have hother := others j hj
      simp only [Ring.progress, World.set_queue, World.set_thread,
        ne_eq, reduceCtorEq, not_false_eq_true, Function.update_of_ne, Thread.worker.injEq, hj]
        at hbefore ⊢
      omega

theorem sends_nulls {p pc : MainPc} {c : Chan n} {v : Nat} (hfits : p.fits n numMsgs)
    (h : Main.Sends n numMsgs p c v pc) :
    (p.progress n numMsgs).lost = 0 ∧ (pc.progress n numMsgs).lost = 0 ∧
      (p.progress n numMsgs).unstarted =
        (pc.progress n numMsgs).unstarted + (if c = .main ∧ v = 0 then 1 else 0) ∧
      ∀ i : Fin n, (if i < (pc.progress n numMsgs).stopped then 1 else 0) =
        (if i < (p.progress n numMsgs).stopped then 1 else 0) +
          if c = .ring i ∧ v = 0 then 1 else 0 := by
  cases h with
  | insert =>
    rw [(insertFrom_progress n hfits.2).2]
    have hv : v ≠ 0 := by have := hfits.1; omega
    simp [MainPc.progress, hv]
  | start i =>
    have hi : i < n := hfits
    rw [(startFrom_progress numMsgs (Nat.succ_le_of_lt hi)).2]
    refine ⟨rfl, rfl, ?_, by simp [MainPc.progress]⟩
    simp only [MainPc.progress, and_self, if_true]
    omega
  | stop i =>
    rw [(stopFrom_progress numMsgs (Nat.succ_le_of_lt i.isLt)).2]
    refine ⟨rfl, rfl, by simp [MainPc.progress], fun j => ?_⟩
    simp only [MainPc.progress, Chan.ring.injEq, and_true, Fin.ext_iff]
    grind

theorem count_snoc (queue : Chan n → List Nat) (c c' : Chan n) (v : Nat) :
    (Function.update queue c (queue c ++ [v]) c').count 0 =
      (queue c').count 0 + if c = c' ∧ v = 0 then 1 else 0 := by
  by_cases hc : c' = c
  · subst hc
    simp [List.count_singleton]
  · simp [hc, Ne.symm hc]

theorem count_rest {queue : Chan n → List Nat} {c : Chan n} {v : Nat} {rest : List Nat}
    (head : queue c = v :: rest) (c' : Chan n) :
    (queue c').count 0 =
      (Function.update queue c rest c').count 0 + if c = c' ∧ v = 0 then 1 else 0 := by
  by_cases hc : c' = c
  · subst hc
    simp [head, List.count_cons]
  · simp [hc, Ne.symm hc]

theorem source_ring {i j : Fin n} {l : Worker} (h : l.source i = .ring j) : i = j := by
  unfold Worker.source at h
  split at h
  · cases h
  · cases h
    rfl

theorem received_nulls (i : Fin n) {l : Worker} (h : l.pc = .receive) (v : Nat) :
    l.start.toNat = (l.received v).start.toNat + (if l.source i = .main ∧ v = 0 then 1 else 0) ∧
      (l.received v).left.toNat =
        l.left.toNat + if l.source i = .ring i ∧ v = 0 then 1 else 0 := by
  cases hs : l.start <;> by_cases hv : v = 0 <;>
    simp [Worker.received, Worker.source, Worker.left, h, hs, hv]

theorem step_nulls (hw : Paced numMsgs w) (hc : Conserved numMsgs w) (hn : Nulls numMsgs w)
    (h : Step n numMsgs b w w') : Nulls numMsgs w' := by
  have goesOn {l : Main} (memory : Memory n) (closed : Chan n → Bool)
      (hl : (l.pc.progress n numMsgs).lost = (w.progress numMsgs).lost)
      (hu : (l.pc.progress n numMsgs).unstarted = (w.progress numMsgs).unstarted)
      (hs : ∀ i : Fin n, i < (l.pc.progress n numMsgs).stopped ↔ i < (w.progress numMsgs).stopped) :
      Nulls numMsgs ({ w with closed := closed, memory := memory }.set .main l) :=
    hn.main w.queue closed memory l (by rw [hl, hu]) fun i => by simp only [hs i]
  cases h with
  | mainSend c v pc sends room =>
    obtain ⟨hl, hl', hu, hs⟩ := sends_nulls hw.fits sends
    refine hn.main _ _ _ _ ?_ fun i => ?_
    · dsimp only [Ring.progress]
      rw [count_snoc, hl, hl', hu]
      omega
    · dsimp only [Ring.progress]
      rw [count_snoc, hs i]
      omega
  | collect msg v rest pc head =>
    have hcount := count_rest head
    have hfits := hw.fits
    rw [pc] at hfits
    by_cases hv : v = 0
    · refine hn.main _ _ _ _ ?_ fun i => ?_
      · have := hcount .main
        simp [Ring.progress, pc, Main.collected, hv, MainPc.progress] at this ⊢
        omega
      · have := hcount (.ring i)
        simp [Ring.progress, pc, Main.collected, hv, MainPc.progress]
    · simp only [Main.collected, if_pos (collected_fresh hc hv head)]
      refine hn.main _ _ _ _ ?_ fun i => ?_
      · rw [hcount .main, (collectFrom_progress n hfits.2).2, Ring.progress, pc]
        simp [hv, MainPc.progress]
      · rw [hcount (.ring i), (collectFrom_progress n hfits.2).2, Ring.progress, pc]
        simp [MainPc.progress]
  | sleep pc =>
    obtain ⟨-, hp⟩ := collectFrom_progress n (Nat.zero_le numMsgs)
    refine goesOn _ _ ?_ ?_ fun i => ?_
    all_goals
      rw [hp, Ring.progress, pc]
      simp [MainPc.progress]
  | join i pc exited =>
    obtain ⟨-, hp⟩ := joinFrom_progress numMsgs (Nat.succ_le_of_lt i.isLt)
    refine goesOn _ _ ?_ ?_ fun i => ?_
    all_goals
      rw [hp, Ring.progress, pc]
      simp [MainPc.progress]
  | close c pc closes isOpen =>
    generalize hp : (w.thread .main).pc = p at closes
    cases closes with
    | main =>
      obtain ⟨-, hp'⟩ := closeFrom_progress numMsgs (Nat.zero_le n)
      refine goesOn _ _ ?_ ?_ fun i => ?_
      all_goals
        rw [hp', Ring.progress, hp]
        simp [MainPc.progress]
    | ring i =>
      obtain ⟨-, hp'⟩ := closeFrom_progress numMsgs (Nat.succ_le_of_lt i.isLt)
      refine goesOn _ _ ?_ ?_ fun i => ?_
      all_goals
        rw [hp', Ring.progress, hp]
        simp [MainPc.progress]
  | mainDenied c shut asks => exact (asks_open hw shut asks).elim
  | receive i v rest pc head =>
    have hcount := count_rest head
    obtain ⟨hstart, hleft⟩ := received_nulls i pc v
    refine hn.worker _ _ _ i _ ?_ ?_ fun j hj => ?_
    · rw [hcount .main, hstart]
      omega
    · rw [hcount (.ring i), hleft]
      omega
    · rw [hcount (.ring j), if_neg fun h => hj (source_ring h.1).symm, Nat.add_zero]
  | load i data pc =>
    refine hn.worker w.queue w.closed w.memory i _ rfl ?_ fun j _ => rfl
    simp only [Worker.left, pc]
    cases w.memory.done <;> rfl
  | send i data c sends room =>
    have hdata : data ≠ 0 := by
      have hheld : data ∈ w.held numMsgs (.hand i) := by simp [Ring.held, hand_held sends]
      exact Nat.pos_iff_ne_zero.mp (held_pos hc hheld).1
    have hcount : ∀ c', (Function.update w.queue c (w.queue c ++ [data]) c').count 0 =
        (w.queue c').count 0 := fun c' => by simp [count_snoc, hdata]
    refine hn.worker _ _ _ i _ ?_ ?_ fun j _ => hcount _
    · rw [hcount]
    · rw [hcount]
      generalize hp : (w.thread (.worker i)).pc = p at sends
      cases sends <;> simp [Worker.left, hp]
  | exit i pc =>
    refine hn.worker w.queue w.closed _ i _ rfl ?_ fun j _ => rfl
    simp [Worker.left, pc]
  | denied i c shut asks =>
    have hpc := workers_open hw shut (i := i)
    rcases asks with ⟨data, hs⟩ | ⟨-, hr⟩
    · rw [hpc] at hs
      cases hs
    · rw [hpc] at hr
      cases hr

structure Ringed (numMsgs b : Nat) (w : Ring n) : Prop where
  paced : Paced numMsgs w
  conserved : Conserved numMsgs w
  nulls : Nulls numMsgs w
  room : ∀ c, (w.queue c).length ≤ b
  gathered : (w.progress numMsgs).lost = 0 →
    (w.held numMsgs .checked).card = (w.progress numMsgs).gathered

theorem snoc_room {queue : Chan n → List Nat} (hr : ∀ c, (queue c).length ≤ b) {c : Chan n}
    (room : (queue c).length < b) (v : Nat) (c' : Chan n) :
    (Function.update queue c (queue c ++ [v]) c').length ≤ b := by
  by_cases hc : c' = c
  · subst hc
    simpa using Nat.succ_le_of_lt room
  · simpa [hc] using hr c'

theorem rest_room {queue : Chan n → List Nat} (hr : ∀ c, (queue c).length ≤ b) {c : Chan n}
    {v : Nat} {rest : List Nat} (head : queue c = v :: rest) (c' : Chan n) :
    (Function.update queue c rest c').length ≤ b := by
  by_cases hc : c' = c
  · subst hc
    have hlen := hr c'
    rw [head, List.length_cons] at hlen
    simpa using Nat.le_of_succ_le hlen
  · simpa [hc] using hr c'

theorem step_room (hr : ∀ c, (w.queue c).length ≤ b) (h : Step n numMsgs b w w') (c : Chan n) :
    (w'.queue c).length ≤ b := by
  cases h with
  | mainSend c' v pc sends room => exact snoc_room hr room v c
  | collect msg v rest pc head => exact rest_room hr head c
  | receive i v rest pc head => exact rest_room hr head c
  | send i data c' sends room => exact snoc_room hr room data c
  | _ => exact hr c

theorem checked_kept {l : Main} (hg : (w.progress numMsgs).lost = 0 →
      (w.held numMsgs .checked).card = (w.progress numMsgs).gathered)
    (queue : Chan n → List Nat) (closed : Chan n → Bool) (memory : Memory n)
    (check : l.msgCheck = (w.thread .main).msgCheck) (now : (w.progress numMsgs).lost = 0)
    (gathered : (l.pc.progress n numMsgs).gathered = (w.progress numMsgs).gathered) :
    (Ring.held numMsgs
      ({ w with queue := queue, closed := closed, memory := memory }.set .main l) .checked).card =
      (l.pc.progress n numMsgs).gathered := by
  rw [held_main, gathered, ← hg now]
  simp only [check, Ring.held]

theorem step_gathered (hw : Paced numMsgs w) (hc : Conserved numMsgs w)
    (hg : (w.progress numMsgs).lost = 0 →
      (w.held numMsgs .checked).card = (w.progress numMsgs).gathered)
    (h : Step n numMsgs b w w') (now : (w'.progress numMsgs).lost = 0) :
    (w'.held numMsgs .checked).card = (w'.progress numMsgs).gathered := by
  cases h with
  | mainSend c v pc sends room =>
    have hfits := hw.fits
    have hpc : ((w.progress numMsgs).lost = 0) ∧
        (pc.progress n numMsgs).gathered = (w.progress numMsgs).gathered := by
      refine ⟨(sends_nulls hfits sends).1, ?_⟩
      rw [Ring.progress]
      generalize (w.thread .main).pc = p at sends hfits
      cases sends with
      | insert => rw [(insertFrom_progress n hfits.2).2]; rfl
      | start i => rw [(startFrom_progress numMsgs (Nat.succ_le_of_lt hfits)).2]; rfl
      | stop i => rw [(stopFrom_progress numMsgs (Nat.succ_le_of_lt i.isLt)).2]; rfl
    simpa [Ring.progress] using
      checked_kept (l := { w.thread .main with pc := pc }) hg _ w.closed w.memory rfl hpc.1 hpc.2
  | collect msg v rest pc head =>
    have hfits := hw.fits
    rw [pc] at hfits
    by_cases hv : v = 0
    · simp [Ring.progress, Main.collected, hv, MainPc.progress] at now
    · have hfresh := collected_fresh hc hv head
      have hmem : v ∈ messages numMsgs := mem_messages.mpr ⟨hfresh.1, hfresh.2.1⟩
      have hbefore : (w.held numMsgs .checked).card = msg - 1 := by
        rw [hg (by simp [Ring.progress, pc, MainPc.progress]), Ring.progress, pc]
        rfl
      have hchecked : (messages numMsgs).filter
          (fun m => Function.update (w.thread .main).msgCheck v true m = true) =
            v ::ₘ w.held numMsgs .checked :=
        filter_gain messages_nodup hmem (by simp [hfresh.2.2]) (by simp) fun m hm => by simp [hm]
      simp only [Main.collected, if_pos hfresh, held_main, hchecked, Multiset.card_cons, hbefore,
        Ring.progress, World.set_thread, Function.update_self, (collectFrom_progress n hfits.2).2]
      exact Nat.sub_add_cancel hfits.1
  | sleep pc =>
    have hgathered : ((MainPc.collectFrom n numMsgs 1).progress n numMsgs).gathered =
        (w.progress numMsgs).gathered := by
      rw [(collectFrom_progress n (Nat.zero_le numMsgs)).2, Ring.progress, pc]
      rfl
    simpa [Ring.progress] using
      checked_kept (l := { w.thread .main with pc := .collectFrom n numMsgs 1 }) hg w.queue w.closed
        { w.memory with done := true } rfl (by simp [Ring.progress, pc, MainPc.progress]) hgathered
  | join i pc exited =>
    have hgathered : ((MainPc.joinFrom n (i + 1)).progress n numMsgs).gathered =
        (w.progress numMsgs).gathered := by
      rw [(joinFrom_progress numMsgs (Nat.succ_le_of_lt i.isLt)).2, Ring.progress, pc]
      rfl
    simpa [Ring.progress] using
      checked_kept (l := { w.thread .main with pc := .joinFrom n (i + 1) }) hg w.queue w.closed
        w.memory rfl (by simp [Ring.progress, pc, MainPc.progress]) hgathered
  | close c pc closes isOpen =>
    have hpc : (w.progress numMsgs).lost = 0 ∧
        (pc.progress n numMsgs).gathered = (w.progress numMsgs).gathered := by
      rw [Ring.progress]
      generalize (w.thread .main).pc = p at closes
      cases closes with
      | main => rw [(closeFrom_progress numMsgs (Nat.zero_le n)).2]; exact ⟨rfl, rfl⟩
      | ring i =>
        rw [(closeFrom_progress numMsgs (Nat.succ_le_of_lt i.isLt)).2]
        exact ⟨rfl, rfl⟩
    simpa [Ring.progress] using
      checked_kept (l := { w.thread .main with pc := pc }) hg w.queue _ w.memory rfl hpc.1 hpc.2
  | mainDenied c shut asks => exact (asks_open hw shut asks).elim
  | receive i v rest pc head =>
    rw [held_worker]
    simpa [Ring.progress] using hg (by simpa [Ring.progress] using now)
  | load i data pc =>
    rw [World.set, ← World.set, held_worker]
    simpa [Ring.progress] using hg (by simpa [Ring.progress] using now)
  | send i data c sends room =>
    rw [held_worker]
    simpa [Ring.progress] using hg (by simpa [Ring.progress] using now)
  | exit i pc =>
    rw [held_worker]
    simpa [Ring.progress] using hg (by simpa [Ring.progress] using now)
  | denied i c shut asks =>
    have hpc := workers_open hw shut (i := i)
    rcases asks with ⟨data, hs⟩ | ⟨-, hr⟩
    · rw [hpc] at hs
      cases hs
    · rw [hpc] at hr
      cases hr

theorem step_ringed (hr : Ringed numMsgs b w) (h : Step n numMsgs b w w') : Ringed numMsgs b w' :=
  ⟨step_paced hr.paced h, step_conserved hr.paced hr.conserved h,
    step_nulls hr.paced hr.conserved hr.nulls h, step_room hr.room h,
    step_gathered hr.paced hr.conserved hr.gathered h⟩

theorem init_ringed (queue : ∀ c, w.queue c = []) (closed : ∀ c, w.closed c = false)
    (init : (program n numMsgs).init w.thread w.memory) : Ringed numMsgs b w := by
  obtain ⟨hmain, hworker, hmemory⟩ := init
  obtain ⟨hf, hp⟩ := insertFrom_progress n (Nat.zero_le numMsgs)
  have hprogress : w.progress numMsgs = (MainPc.insert 1).progress n numMsgs := by
    rw [Ring.progress, hmain]
    exact hp
  have hheld (p : Place n) : w.held numMsgs p = if p = .outside then messages numMsgs else 0 := by
    cases p with
    | outside =>
      simp only [Ring.held, hprogress, MainPc.progress, if_true]
      exact Multiset.filter_eq_self.mpr fun m hm => (mem_messages.mp hm).1
    | queue c => simp [Ring.held, queue, nonNull]
    | hand i => simp [Ring.held, hworker, Worker.hand]
    | checked => simp [Ring.held, hmain]
  refine ⟨?_, ?_, ?_, by simp [queue], ?_⟩
  · refine ⟨by rw [hmain]; exact hf, by simp [hworker], by simp [hworker, hmemory], ?_,
      by simp [closed], by simp [closed], by simp [hmemory], by simp [hworker]⟩
    simp [hprogress, MainPc.progress]
  · rw [Conserved, total]
    simp [hheld]
  · refine ⟨?_, ?_⟩
    · simp [starters, hworker, queue, hprogress, MainPc.progress]
    · simp [hworker, queue, hprogress, MainPc.progress, Worker.left]
  · simp [hheld, hprogress, MainPc.progress]

theorem reached_ringed (h : Reached (program n numMsgs) (fun _ => b) w) : Ringed numMsgs b w :=
  reached_always program_plain (fun _ => init_ringed) (fun _ _ hr h => step_ringed hr (took_step h)) h

end OperatingSystems.SendRecv
