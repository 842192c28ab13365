import OperatingSystems.Library.Tokens
import OperatingSystems.Stress.RingPace

namespace OperatingSystems.SendRecv
open Concurrency Tokens

variable {n numMsgs b : Nat} {w w' : Ring n}

inductive Place (n : Nat)
  | outside
  | queue (c : Chan n)
  | hand (i : Fin n)
  | checked
deriving DecidableEq, Fintype

def Worker.hand (l : Worker) : Multiset Nat :=
  match l.pc with
  | .load data => {data}
  | .sendMain data => {data}
  | .sendNext data => {data}
  | _ => 0

def messages (numMsgs : Nat) : Multiset Nat := ↑(List.range' 1 numMsgs)

-- what a queue holds besides `NULL`
def nonNull (l : List Nat) : Multiset Nat := ↑(l.filter (· ≠ 0))

def Ring.held (numMsgs : Nat) (w : Ring n) : Place n → Multiset Nat
  | .outside => (messages numMsgs).filter ((w.progress numMsgs).nextMsg ≤ ·)
  | .queue c => nonNull (w.queue c)
  | .hand i => (w.thread (.worker i)).hand
  | .checked => (messages numMsgs).filter fun m => (w.thread .main).msgCheck m = true

def Conserved (numMsgs : Nat) (w : Ring n) : Prop := total (w.held numMsgs) = messages numMsgs

theorem mem_messages {m : Nat} : m ∈ messages numMsgs ↔ 1 ≤ m ∧ m ≤ numMsgs := by
  simp only [messages, Multiset.mem_coe, List.mem_range'_1]
  omega

theorem messages_nodup : (messages numMsgs).Nodup := by
  rw [messages, Multiset.coe_nodup]
  exact List.nodup_range'

theorem filter_gain {s : Multiset Nat} (hs : s.Nodup) {p q : Nat → Prop} [DecidablePred p]
    [DecidablePred q] {a : Nat} (ha : a ∈ s) (hp : ¬ p a) (hq : q a)
    (h : ∀ m, m ≠ a → (p m ↔ q m)) : s.filter q = a ::ₘ s.filter p := by
  refine (Multiset.Nodup.ext (hs.filter q) ?_).mpr fun m => ?_
  · exact Multiset.nodup_cons.mpr ⟨fun hm => hp (Multiset.mem_filter.mp hm).2, hs.filter p⟩
  · by_cases hm : m = a
    · subst hm
      simp [ha, hq]
    · simp [hm, h m hm]

theorem nonNull_cons {v : Nat} (h : v ≠ 0) (l : List Nat) :
    nonNull (v :: l) = v ::ₘ nonNull l := by
  simp [nonNull, h]

theorem nonNull_cons_zero (l : List Nat) : nonNull (0 :: l) = nonNull l := by
  simp [nonNull]

theorem nonNull_snoc {v : Nat} (h : v ≠ 0) (l : List Nat) :
    nonNull (l ++ [v]) = v ::ₘ nonNull l := by
  rw [← nonNull_cons h]
  exact Multiset.coe_eq_coe.mpr ((List.perm_append_singleton v l).filter _)

theorem nonNull_snoc_zero (l : List Nat) : nonNull (l ++ [0]) = nonNull l := by
  simp [nonNull]

theorem hand_held {l : Worker} {data : Nat} {i : Fin n} {c : Chan n}
    (h : Worker.Sends i data l.pc c) : l.hand = {data} := by
  generalize hp : l.pc = p at h
  cases h <;> simp [Worker.hand, hp]

section
variable (w) (queue : Chan n → List Nat) (closed : Chan n → Bool) (memory : Memory n)

theorem held_worker (i : Fin n) (l : Worker) (p : Place n) :
    Ring.held numMsgs
      ({ w with queue := queue, closed := closed, memory := memory }.set (.worker i) l) p =
      match p with
      | .queue c => nonNull (queue c)
      | .hand j => if j = i then l.hand else (w.thread (.worker j)).hand
      | p => w.held numMsgs p := by
  cases p with
  | hand j =>
    by_cases hj : j = i
    · subst hj
      simp [Ring.held]
    · simp [Ring.held, hj]
  | _ => simp [Ring.held, Ring.progress]

theorem held_main (l : Main) (p : Place n) :
    Ring.held numMsgs
      ({ w with queue := queue, closed := closed, memory := memory }.set .main l) p =
      match p with
      | .outside => (messages numMsgs).filter ((l.pc.progress n numMsgs).nextMsg ≤ ·)
      | .queue c => nonNull (queue c)
      | .hand j => (w.thread (.worker j)).hand
      | .checked => (messages numMsgs).filter fun m => l.msgCheck m = true := by
  cases p <;> simp [Ring.held, Ring.progress]

theorem held_main_same (l : Main) (hqueue : ∀ c, nonNull (queue c) = nonNull (w.queue c))
    (hnext : (l.pc.progress n numMsgs).nextMsg = (w.progress numMsgs).nextMsg)
    (hcheck : l.msgCheck = (w.thread .main).msgCheck) :
    Ring.held numMsgs
      ({ w with queue := queue, closed := closed, memory := memory }.set .main l) =
      w.held numMsgs := by
  funext p
  rw [held_main]
  cases p with
  | outside => simp only [Ring.held, hnext]
  | queue c => exact hqueue c
  | hand j => rfl
  | checked => simp only [Ring.held, hcheck]

theorem held_worker_same (i : Fin n) (l : Worker)
    (hqueue : ∀ c, nonNull (queue c) = nonNull (w.queue c))
    (hhand : l.hand = (w.thread (.worker i)).hand) :
    Ring.held numMsgs
      ({ w with queue := queue, closed := closed, memory := memory }.set (.worker i) l) =
      w.held numMsgs := by
  funext p
  rw [held_worker]
  cases p with
  | queue c => exact hqueue c
  | hand j =>
    dsimp only
    split
    · rename_i hj
      subst hj
      exact hhand
    · rfl
  | _ => rfl

end

theorem sends_next {p pc : MainPc} {c : Chan n} {v : Nat} (hfits : p.fits n numMsgs)
    (h : Main.Sends n numMsgs p c v pc) :
    (p = .insert v ∧ c = .main ∧ (pc.progress n numMsgs).nextMsg = v + 1) ∨
      (v = 0 ∧ (pc.progress n numMsgs).nextMsg = (p.progress n numMsgs).nextMsg) := by
  cases h with
  | insert =>
    rw [(insertFrom_progress n hfits.2).2]
    exact .inl ⟨rfl, rfl, rfl⟩
  | start i =>
    rw [(startFrom_progress numMsgs (Nat.succ_le_of_lt hfits)).2]
    exact .inr ⟨rfl, rfl⟩
  | stop i =>
    rw [(stopFrom_progress numMsgs (Nat.succ_le_of_lt i.isLt)).2]
    exact .inr ⟨rfl, rfl⟩

theorem update_nonNull (queue : Chan n → List Nat) {c : Chan n} {l : List Nat}
    (h : nonNull l = nonNull (queue c)) (c' : Chan n) :
    nonNull (Function.update queue c l c') = nonNull (queue c') := by
  by_cases hc : c' = c
  · subst hc
    simpa using h
  · simp [hc]

theorem held_pos {a : Nat} {p : Place n} (hc : Conserved numMsgs w) (h : a ∈ w.held numMsgs p) :
    1 ≤ a ∧ a ≤ numMsgs := by
  rw [← mem_messages, ← hc]
  exact mem_total.mpr ⟨p, h⟩

theorem collected_fresh {v : Nat} {rest : List Nat} (hc : Conserved numMsgs w) (hv : v ≠ 0)
    (head : w.queue .main = v :: rest) :
    1 ≤ v ∧ v ≤ numMsgs ∧ (w.thread .main).msgCheck v = false := by
  have hqueue : v ∈ w.held numMsgs (.queue .main) := by
    simp [Ring.held, head, nonNull_cons hv]
  obtain ⟨hpos, hle⟩ := held_pos hc hqueue
  have hmem : v ∈ messages numMsgs := mem_messages.mpr ⟨hpos, hle⟩
  refine ⟨hpos, hle, ?_⟩
  by_contra hchecked
  have hplace : v ∈ w.held numMsgs .checked := by
    simpa [Ring.held, hmem] using hchecked
  cases place_unique (hc ▸ messages_nodup) hqueue hplace

section
variable (hw : Paced numMsgs w) (hc : Conserved numMsgs w)
include hw

theorem insert_moved {v : Nat} {pc : MainPc} (hpc : (w.thread .main).pc = .insert v)
    (hnext : (pc.progress n numMsgs).nextMsg = v + 1) :
    Moved v .outside (.queue .main) (w.held numMsgs) (Ring.held numMsgs
      ({ w with queue := Function.update w.queue .main (w.queue .main ++ [v]) }.set .main
        { w.thread .main with pc := pc })) := by
  have hfits := hw.fits
  rw [hpc] at hfits
  have hmem : v ∈ messages numMsgs := mem_messages.mpr hfits
  have hbefore : (w.progress numMsgs).nextMsg = v := by rw [Ring.progress, hpc]; rfl
  refine ⟨by simp, ?_, ?_, fun r hr hr' => ?_⟩
  · rw [held_main]
    simp only [Ring.held, hbefore, hnext]
    exact filter_gain messages_nodup hmem (by omega) (by omega) fun m hm => by omega
  · rw [held_main]
    simp [Ring.held, nonNull_snoc (show v ≠ 0 by have := hfits.1; omega)]
  · rw [held_main]
    cases r with
    | outside => exact absurd rfl hr
    | queue c => simp [Ring.held, show c ≠ .main by simpa using hr']
    | _ => rfl

include hc

theorem collect_moved {msg v : Nat} {rest : List Nat} (pc : (w.thread .main).pc = .collect msg)
    (hv : v ≠ 0) (head : w.queue .main = v :: rest) :
    Moved v (.queue .main) .checked (w.held numMsgs) (Ring.held numMsgs
      ({ w with queue := Function.update w.queue .main rest }.set .main
        ((w.thread .main).collected n numMsgs msg v))) := by
  have hfresh := collected_fresh hc hv head
  have hfits := hw.fits
  rw [pc] at hfits
  have hmem : v ∈ messages numMsgs := mem_messages.mpr ⟨hfresh.1, hfresh.2.1⟩
  simp only [Main.collected, if_pos hfresh]
  refine ⟨by simp, ?_, ?_, fun r hr hr' => ?_⟩
  · rw [held_main]
    simp [Ring.held, head, nonNull_cons hv]
  · rw [held_main]
    refine filter_gain messages_nodup hmem (by simp [hfresh.2.2]) (by simp) fun m hm => ?_
    simp [hm]
  · rw [held_main]
    cases r with
    | outside =>
      have hnext : ((MainPc.collectFrom n numMsgs (msg + 1)).progress n numMsgs).nextMsg =
          (w.progress numMsgs).nextMsg := by
        rw [(collectFrom_progress n hfits.2).2, Ring.progress, pc]
        rfl
      simp only [Ring.held, hnext]
    | queue c => simp [Ring.held, show c ≠ .main by simpa using hr]
    | checked => exact absurd rfl hr'
    | hand j => rfl

omit hw hc in
theorem receive_moved {i : Fin n} {v : Nat} {rest : List Nat}
    (pc : (w.thread (.worker i)).pc = .receive) (hv : v ≠ 0)
    (head : w.queue ((w.thread (.worker i)).source i) = v :: rest) :
    Moved v (.queue ((w.thread (.worker i)).source i)) (.hand i) (w.held numMsgs)
      (Ring.held numMsgs
        ({ w with queue := Function.update w.queue ((w.thread (.worker i)).source i) rest }.set
          (.worker i) ((w.thread (.worker i)).received v))) := by
  refine ⟨by simp, ?_, ?_, fun r hr hr' => ?_⟩
  · rw [held_worker]
    simp [Ring.held, head, nonNull_cons hv]
  · rw [held_worker]
    simp [Ring.held, Worker.received, hv, Worker.hand, pc]
  · rw [held_worker]
    cases r with
    | hand j => simp [Ring.held, show j ≠ i by simpa using hr']
    | queue c => simp [Ring.held, show c ≠ (w.thread (.worker i)).source i by simpa using hr]
    | _ => rfl

omit hw in
theorem send_moved {i : Fin n} {data : Nat} {c : Chan n}
    (sends : Worker.Sends i data (w.thread (.worker i)).pc c) :
    Moved data (.hand i) (.queue c) (w.held numMsgs) (Ring.held numMsgs
      ({ w with queue := Function.update w.queue c (w.queue c ++ [data]) }.set (.worker i)
        { w.thread (.worker i) with pc := .receive })) := by
  have hheld : data ∈ w.held numMsgs (.hand i) := by simp [Ring.held, hand_held sends]
  have hdata : data ≠ 0 := Nat.pos_iff_ne_zero.mp (held_pos hc hheld).1
  refine ⟨by simp, ?_, ?_, fun r hr hr' => ?_⟩
  · rw [held_worker]
    simp only [Ring.held, hand_held sends, if_true]
    rfl
  · rw [held_worker]
    simp [Ring.held, nonNull_snoc hdata]
  · rw [held_worker]
    cases r with
    | hand j => simp [Ring.held, show j ≠ i by simpa using hr]
    | queue c' => simp [Ring.held, show c' ≠ c by simpa using hr']
    | _ => rfl

theorem step_held (h : Step n numMsgs b w w') : Ring.held numMsgs w' = Ring.held numMsgs w ∨
      ∃ a p q, Moved a p q (Ring.held numMsgs w) (Ring.held numMsgs w') := by
  cases h with
  | mainSend c v pc sends room =>
    rcases sends_next hw.fits sends with ⟨hpc, rfl, hnext⟩ | ⟨rfl, hnext⟩
    · exact .inr ⟨v, _, _, insert_moved hw hpc hnext⟩
    · exact .inl (held_main_same w _ _ _ _ (update_nonNull w.queue (nonNull_snoc_zero _)) hnext rfl)
  | collect msg v rest pc head =>
    by_cases hv : v = 0
    · subst hv
      refine .inl (held_main_same w _ _ _ _
        (update_nonNull w.queue (by rw [head, nonNull_cons_zero])) ?_ rfl)
      simp [Ring.progress, Main.collected, pc, MainPc.progress]
    · exact .inr ⟨v, _, _, collect_moved hw hc pc hv head⟩
  | sleep pc =>
    refine .inl (held_main_same w _ _ _ _ (fun _ => rfl) ?_ rfl)
    rw [(collectFrom_progress n (Nat.zero_le numMsgs)).2, Ring.progress, pc]
    rfl
  | join i pc exited =>
    refine .inl (held_main_same w _ _ _ _ (fun _ => rfl) ?_ rfl)
    rw [(joinFrom_progress numMsgs (Nat.succ_le_of_lt i.isLt)).2, Ring.progress, pc]
    rfl
  | close c pc closes isOpen =>
    exact .inl (held_main_same w _ _ _ _ (fun _ => rfl) (closes_progress numMsgs closes).2.2.2.2.1 rfl)
  | mainDenied c shut asks => exact (asks_open hw shut asks).elim
  | receive i v rest pc head =>
    by_cases hv : v = 0
    · subst hv
      refine .inl (held_worker_same w _ _ _ i _
        (update_nonNull w.queue (by rw [head, nonNull_cons_zero])) ?_)
      rw [Worker.received, if_pos rfl]
      split <;> simp [Worker.hand, pc]
    · exact .inr ⟨v, _, _, receive_moved pc hv head⟩
  | load i data pc =>
    refine .inl (held_worker_same w _ _ _ i _ (fun _ => rfl) ?_)
    simp only [Worker.hand, pc]
    cases w.memory.done <;> rfl
  | send i data c sends room => exact .inr ⟨data, _, _, send_moved hc sends⟩
  | exit i pc =>
    refine .inl (held_worker_same w _ _ _ i _ (fun _ => rfl) ?_)
    simp [Worker.hand, pc]
  | denied i c shut asks =>
    have hpc := workers_open hw shut (i := i)
    rcases asks with ⟨data, hs⟩ | ⟨-, hr⟩
    · rw [hpc] at hs
      cases hs
    · rw [hpc] at hr
      cases hr

end

theorem step_conserved (hw : Paced numMsgs w) (hc : Conserved numMsgs w)
    (h : Step n numMsgs b w w') : Conserved numMsgs w' := by
  rcases step_held hw hc h with hsame | ⟨a, p, q, hm⟩
  · rw [Conserved, hsame]
    exact hc
  · exact hm.total_eq.trans hc

end OperatingSystems.SendRecv
