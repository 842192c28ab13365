import Mathlib.Data.Fintype.BigOperators
import OperatingSystems.Stress.RingEnd

namespace OperatingSystems.SendRecv
open Calling Concurrency Tokens Transition

variable {n numMsgs b : Nat} {w : Ring n}

section
variable (hno : ∀ w', ¬ Took (program n numMsgs) (fun _ => b) w w')
include hno

theorem blocked_send {t : Thread n} {c : Chan n} {v : Nat}
    (h : (program n numMsgs).ask t (w.thread t) = some (.send c v)) : b ≤ (w.queue c).length := by
  by_contra hroom
  exact hno _ (.call t h (.send c v (Nat.lt_of_not_le hroom)))

theorem blocked_receive {t : Thread n} {c : Chan n}
    (h : (program n numMsgs).ask t (w.thread t) = some (.receive c)) : w.queue c = [] := by
  cases hq : w.queue c with
  | nil => rfl
  | cons v rest => exact (hno _ (.call t h (.receive c hq))).elim

theorem no_close {t : Thread n} {c : Chan n}
    (h : (program n numMsgs).ask t (w.thread t) = some (.close c)) : False := by
  cases hc : w.closed c with
  | false => exact hno _ (.call t h (.close c hc))
  | true => exact hno _ (.call t h (.closeAgain c hc))

theorem no_move {t : Thread n} (h : (program n numMsgs).ask t (w.thread t) = none) :
    (program n numMsgs).move t (w.thread t) w.memory = none := by
  cases hm : (program n numMsgs).move t (w.thread t) w.memory with
  | none => rfl
  | some r => exact (hno _ (.move t h hm)).elim

theorem blocked_worker (hr : Ringed numMsgs b w) (i : Fin n) :
    ((w.thread (.worker i)).pc = .receive ∧ w.queue ((w.thread (.worker i)).source i) = []) ∨
      (∃ data c, Worker.Sends i data (w.thread (.worker i)).pc c ∧ b ≤ (w.queue c).length) ∨
        (w.thread (.worker i)).pc = .exited := by
  have halive := hr.paced.alive i
  cases hpc : (w.thread (.worker i)).pc with
  | receive =>
    exact .inl ⟨rfl, blocked_receive (t := .worker i) hno (by simp [program, Worker.ask, hpc, Worker.source])⟩
  | load data =>
    have hmove := no_move (t := .worker i) hno (by simp [program, Worker.ask, hpc])
    simp [program, Worker.move, hpc] at hmove
  | sendMain data =>
    exact .inr (.inl ⟨data, _, .main,
      blocked_send (t := .worker i) (v := data) hno (by simp [program, Worker.ask, hpc])⟩)
  | sendNext data =>
    exact .inr (.inl ⟨data, _, .next,
      blocked_send (t := .worker i) (v := data) hno (by simp [program, Worker.ask, hpc])⟩)
  | exit =>
    have hmove := no_move (t := .worker i) hno (by simp [program, Worker.ask, hpc])
    simp [program, Worker.move, hpc] at hmove
  | exited => exact .inr (.inr rfl)
  | failed => exact (halive hpc).elim

end

theorem next_injective : Function.Injective (next : Fin n → Fin n) := by
  intro i j h
  have hi := i.isLt
  have hj := j.isLt
  unfold next at h
  ext
  split at h <;> split at h <;> simp [Fin.ext_iff] at h <;> omega

theorem next_closed {P : Fin n → Prop} (hnext : ∀ i, P i → P (next i)) {i : Fin n} (hi : P i)
    (j : Fin n) : P j := by
  have up (a : Fin n) (ha : P a) (k : Nat) (h : a + k < n) : P ⟨a + k, h⟩ := by
    induction k with
    | zero => exact ha
    | succ k ih =>
      have hstep := hnext _ (ih (by omega))
      rwa [next, dif_pos (by exact h)] at hstep
  have hlast : P ⟨n - 1, by have := i.isLt; omega⟩ := by
    have hup := up i hi (n - 1 - i) (by have := i.isLt; omega)
    simpa only [show (i : Nat) + (n - 1 - i) = n - 1 by have := i.isLt; omega] using hup
  have hfirst : P ⟨0, i.pos⟩ := by
    have hstep := hnext _ hlast
    rwa [next, dif_neg (by have := i.pos; simp; omega)] at hstep
  simpa using up _ hfirst j (by simp)

theorem nonNull_card {l : List Nat} (h : l.count 0 = 0) : (nonNull l).card = l.length := by
  have hno : 0 ∉ l := List.count_eq_zero.mp h
  rw [nonNull, Multiset.coe_card, List.filter_eq_self.mpr fun m hm => ?_]
  simpa using fun h0 : m = 0 => hno (h0 ▸ hm)

theorem messages_card : (messages numMsgs).card = numMsgs := by simp [messages]

theorem ring_empty (hr : Ringed numMsgs b w) (hb : b ≠ 0) (hload : numMsgs < n * (b + 1))
    (hzero : ∀ i, (w.queue (.ring i)).count 0 = 0)
    (hall : ∀ i, ((w.thread (.worker i)).pc = .receive ∧ (w.thread (.worker i)).start = false ∧
        w.queue (.ring i) = []) ∨
      ∃ data, (w.thread (.worker i)).pc = .sendNext data ∧
        b ≤ (w.queue (.ring (next i))).length) (i : Fin n) :
    (w.thread (.worker i)).pc = .receive ∧ (w.thread (.worker i)).start = false ∧
      w.queue (.ring i) = [] := by
  refine (hall i).resolve_right fun hi => ?_
  have hfull := next_closed (P := fun i => ∃ data, (w.thread (.worker i)).pc = .sendNext data ∧
    b ≤ (w.queue (.ring (next i))).length) (fun j ⟨data, hpc, hlen⟩ =>
      (hall (next j)).resolve_left fun ⟨_, _, hnil⟩ => by
        rw [hnil] at hlen
        exact hb (Nat.le_zero.mp hlen)) hi
  have he : Function.Injective
      (Sum.elim Place.hand fun i => Place.queue (.ring (next i)) : Fin n ⊕ Fin n → Place n) := by
    rintro (i | i) (j | j) h
    · cases h
      rfl
    · cases h
    · cases h
    · have h : next i = next j := by simpa using h
      rw [next_injective h]
  have hcard := card_le_total he (w.held numMsgs)
  rw [show total (w.held numMsgs) = _ from hr.conserved, messages_card, Fintype.sum_sum_type] at hcard
  have hhand : ∑ i, (w.held numMsgs (.hand i)).card = n := by
    refine (Finset.sum_congr rfl fun i _ => ?_).trans (by simp : ∑ _i : Fin n, 1 = n)
    obtain ⟨data, hpc, -⟩ := hfull i
    simp [Ring.held, Worker.hand, hpc]
  have hring : n * b ≤ ∑ i, (w.held numMsgs (.queue (.ring (next i)))).card := by
    calc n * b = ∑ _i : Fin n, b := by simp
      _ ≤ _ := Finset.sum_le_sum fun i _ => ?_
    obtain ⟨data, -, hlen⟩ := hfull i
    rwa [Ring.held, nonNull_card (hzero _)]
  simp only [Sum.elim_inl, Sum.elim_inr, hhand] at hcard
  rw [Nat.mul_add, Nat.mul_one] at hload
  omega

theorem early_worker (hno : ∀ w', ¬ Took (program n numMsgs) (fun _ => b) w w')
    (hr : Ringed numMsgs b w) (hstopped : (w.progress numMsgs).stopped = 0) (i : Fin n) :
    ((w.thread (.worker i)).pc = .receive ∧ w.queue ((w.thread (.worker i)).source i) = []) ∨
      (∃ data, (w.thread (.worker i)).pc = .sendMain data ∧ b ≤ (w.queue .main).length) ∨
        ∃ data, (w.thread (.worker i)).pc = .sendNext data ∧
          b ≤ (w.queue (.ring (next i))).length := by
  have hleft := hr.nulls.stopping i
  rcases blocked_worker hno hr i with h | ⟨data, c, hs, hlen⟩ | hpc
  · exact .inl h
  · generalize (w.thread (.worker i)).pc = p at hs
    cases hs with
    | main => exact .inr (.inl ⟨data, rfl, hlen⟩)
    | next => exact .inr (.inr ⟨data, rfl, hlen⟩)
  · rw [hstopped] at hleft
    simp [Worker.left, hpc] at hleft

theorem early_zero (hr : Ringed numMsgs b w) (hstopped : (w.progress numMsgs).stopped = 0)
    (i : Fin n) : (w.queue (.ring i)).count 0 = 0 := by
  have hleft := hr.nulls.stopping i
  rw [hstopped] at hleft
  simp at hleft
  exact hleft.1

theorem main_sends (hno : ∀ w', ¬ Took (program n numMsgs) (fun _ => b) w w')
    (hr : Ringed numMsgs b w) (hb : b ≠ 0) (hload : numMsgs < n * (b + 1))
    (hearly : (w.progress numMsgs).early = true) (hstopped : (w.progress numMsgs).stopped = 0)
    (hunstarted : (w.progress numMsgs).unstarted ≠ 0) (hfull : b ≤ (w.queue .main).length) :
    False := by
  have hmain : w.queue .main ≠ [] := by
    intro hnil
    rw [hnil] at hfull
    exact hb (Nat.le_zero.mp hfull)
  have hempty := ring_empty hr hb hload (early_zero hr hstopped) fun i => by
    rcases early_worker hno hr hstopped i with ⟨hpc, hsource⟩ | ⟨data, hpc, -⟩ | h
    · have hstart : (w.thread (.worker i)).start = false := by
        by_contra hs
        simp only [Worker.source, Bool.not_eq_false] at hs hsource
        rw [if_pos hs] at hsource
        exact hmain hsource
      simp only [Worker.source, hstart, Bool.false_eq_true, if_false] at hsource
      exact .inl ⟨hpc, hstart, hsource⟩
    · have hdone := hr.paced.done i data hpc
      rw [hr.paced.early hearly] at hdone
      cases hdone
    · exact .inr h
  have hstarters : starters w = 0 := by simp [starters, hempty]
  have hstarting := hr.nulls.starting
  omega

theorem all_checked (hr : Ringed numMsgs b w) (hlost : (w.progress numMsgs).lost = 0)
    (hgathered : (w.progress numMsgs).gathered = numMsgs) :
    w.held numMsgs .checked = messages numMsgs := by
  refine Multiset.eq_of_le_of_card_le (Multiset.filter_le _ _) ?_
  rw [messages_card, hr.gathered hlost, hgathered]

theorem held_nowhere (hr : Ringed numMsgs b w)
    (hchecked : w.held numMsgs .checked = messages numMsgs) {p : Place n} (hp : p ≠ .checked) :
    w.held numMsgs p = 0 := by
  refine Multiset.eq_zero_of_forall_notMem fun a ha => hp ?_
  have hplace : a ∈ w.held numMsgs .checked := by
    rw [hchecked]
    exact mem_messages.mpr (held_pos hr.conserved ha)
  have hnodup : (total (w.held numMsgs)).Nodup := hr.conserved ▸ messages_nodup
  exact place_unique hnodup ha hplace

theorem nonNull_nil {l : List Nat} (h : nonNull l = 0) (hzero : l.count 0 = 0) : l = [] := by
  rw [← List.length_eq_zero_iff, ← nonNull_card hzero, h, Multiset.card_zero]

theorem stuck_main (hno : ∀ w', ¬ Took (program n numMsgs) (fun _ => b) w w')
    (hr : Ringed numMsgs b w) (hb : b ≠ 0) (hload : numMsgs < n * (b + 1)) :
    (w.thread .main).pc = .failed ∨ (w.thread .main).pc = .returned := by
  have hfits := hr.paced.fits
  have hstarting := hr.nulls.starting
  have hconserved := hr.conserved
  have hgathered := hr.gathered
  cases hpc : (w.thread .main).pc with
  | failed => exact .inl rfl
  | returned => exact .inr rfl
  | insert msg =>
    have hn : n ≠ 0 := by
      rintro rfl
      simp at hload
    have hfull := blocked_send (t := .main) (c := .main) (v := msg) hno (by simp [program, Main.ask, hpc])
    exact (main_sends hno hr hb hload (by rw [Ring.progress, hpc]; rfl)
      (by rw [Ring.progress, hpc]; rfl) (by rw [Ring.progress, hpc]; exact hn) hfull).elim
  | start i =>
    rw [hpc] at hfits
    have hleft : n - i ≠ 0 := Nat.sub_ne_zero_of_lt hfits
    have hfull := blocked_send (t := .main) (c := .main) (v := 0) hno (by simp [program, Main.ask, hpc])
    exact (main_sends hno hr hb hload (by rw [Ring.progress, hpc]; rfl)
      (by rw [Ring.progress, hpc]; rfl) (by rw [Ring.progress, hpc]; exact hleft) hfull).elim
  | sleep =>
    have hmove := no_move (t := .main) hno (by simp [program, Main.ask, hpc])
    simp [program, Main.move, hpc] at hmove
  | collect msg =>
    rw [hpc] at hfits
    have hmain := blocked_receive (t := .main) (c := .main) hno (by simp [program, Main.ask, hpc])
    have hstopped : (w.progress numMsgs).stopped = 0 := by rw [Ring.progress, hpc]; rfl
    have hstart : starters w = 0 := by
      rw [hstarting, hmain, Ring.progress, hpc]
      rfl
    have hempty := ring_empty hr hb hload (early_zero hr hstopped) fun i => by
      have hs : (w.thread (.worker i)).start = false := by
        have hs := Finset.sum_eq_zero_iff.mp hstart i (Finset.mem_univ i)
        simpa using hs
      rcases early_worker hno hr hstopped i with ⟨hpc, hsource⟩ | ⟨data, -, hfull⟩ | h
      · simp only [Worker.source, hs, Bool.false_eq_true, if_false] at hsource
        exact .inl ⟨hpc, hs, hsource⟩
      · rw [hmain] at hfull
        exact absurd (Nat.le_zero.mp hfull) hb
      · exact .inr h
    have hchecked : w.held numMsgs .checked = messages numMsgs := by
      rw [← hconserved, total, Finset.sum_eq_single .checked]
      · intro p _ hp
        cases p with
        | outside =>
          rw [Ring.held, Ring.progress, hpc]
          exact Multiset.filter_eq_nil.mpr fun m hm =>
            Nat.not_le_of_lt (Nat.lt_succ_of_le (mem_messages.mp hm).2)
        | queue c =>
          cases c with
          | main => simp [Ring.held, hmain, nonNull]
          | ring i => simp [Ring.held, hempty i, nonNull]
        | hand i => simp [Ring.held, Worker.hand, hempty i]
        | checked => exact absurd rfl hp
      · exact fun h => absurd (Finset.mem_univ _) h
    have hcard := hgathered (by rw [Ring.progress, hpc]; rfl)
    rw [hchecked, messages_card, Ring.progress, hpc] at hcard
    have hcard : numMsgs = msg - 1 := hcard
    have := hfits.1
    have := hfits.2
    omega
  | stop i =>
    rw [hpc] at hfits
    have hi : i < n := hfits
    have hchecked := all_checked hr (by rw [Ring.progress, hpc]; rfl) (by rw [Ring.progress, hpc]; rfl)
    have hfull := blocked_send (t := .main) (c := .ring ⟨i, hi⟩) (v := 0) hno
      (by simp [program, Main.ask, hpc, ringAt, hi])
    have hzero := hr.nulls.stopping ⟨i, hi⟩
    rw [Ring.progress, hpc] at hzero
    have hnil := nonNull_nil (held_nowhere hr hchecked (p := .queue (.ring ⟨i, hi⟩)) (by simp))
      (by simpa [MainPc.progress] using And.left (by simpa [MainPc.progress] using hzero))
    rw [hnil] at hfull
    exact absurd (Nat.le_zero.mp hfull) hb
  | join i =>
    rw [hpc] at hfits
    have hi : i < n := hfits
    have hchecked := all_checked hr (by rw [Ring.progress, hpc]; rfl) (by rw [Ring.progress, hpc]; rfl)
    have hexited : w.memory.exited ⟨i, hi⟩ = false := by
      have hmove := no_move (t := .main) hno (by simp [program, Main.ask, hpc])
      simpa [program, Main.move, hpc, hi] using hmove
    have hstop := hr.nulls.stopping ⟨i, hi⟩
    rw [Ring.progress, hpc] at hstarting hstop
    have hhand := held_nowhere hr hchecked (p := .hand ⟨i, hi⟩) (by simp)
    rcases blocked_worker hno hr ⟨i, hi⟩ with ⟨hreceive, hsource⟩ | ⟨data, c, hs, -⟩ | hover
    · cases hs : (w.thread (.worker ⟨i, hi⟩)).start with
      | true =>
        simp only [Worker.source, hs, if_true] at hsource
        rw [hsource] at hstarting
        have hone := Finset.single_le_sum (f := fun j => (w.thread (.worker j)).start.toNat)
          (fun _ _ => Nat.zero_le _) (Finset.mem_univ ⟨i, hi⟩)
        simp only [hs, Bool.toNat_true] at hone
        simp [starters, MainPc.progress] at hstarting
        simp [hstarting] at hone
      | false =>
        simp only [Worker.source, hs, Bool.false_eq_true, if_false] at hsource
        simp [hsource, Worker.left, hreceive, MainPc.progress, hi] at hstop
    · rw [Ring.held, hand_held hs] at hhand
      simp at hhand
    · simp [(hr.paced.exited ⟨i, hi⟩).mpr hover] at hexited
  | closeMain => exact (no_close (t := .main) hno (c := .main) (by simp [program, Main.ask, hpc])).elim
  | closeRing i =>
    rw [hpc] at hfits
    have hi : i < n := hfits
    exact (no_close (t := .main) hno (c := .ring ⟨i, hi⟩)
      (by simp [program, Main.ask, hpc, ringAt, hi])).elim

-- on the channels of `channel.c`: a call that has taken its effect counts as returned
abbrev ring (numMsgs : Nat) (s : State (Thread n) (Chan n) Nat)
    (g : (∀ t : Thread n, Local t) × Memory n) : Ring n := (program n numMsgs).world s.queues g

section
variable {s : State (Thread n) (Chan n) Nat} {g : (∀ t : Thread n, Local t) × Memory n}

theorem messages_kept (hb : b ≠ 0)
    (h : Reachable (hosted (threads fun _ => b) (program n numMsgs).client) (s, g)) :
    total ((ring numMsgs s g).held numMsgs) = messages numMsgs ∧
      (∀ i, ((ring numMsgs s g).thread (.worker i)).pc ≠ .failed) ∧
      (((ring numMsgs s g).thread .main).pc = .failed →
        ∃ i, ((ring numMsgs s g).thread (.worker i)).start = true) := by
  have hr := reached_ringed (channels_reached (fun _ => hb) h)
  refine ⟨hr.conserved, hr.paced.alive, fun hfailed => ?_⟩
  by_contra hnone
  have hstarters : starters (ring numMsgs s g) = 0 :=
    Finset.sum_eq_zero fun i _ => by
      simpa using fun hs => hnone ⟨i, hs⟩
  have hstarting := hr.nulls.starting
  rw [hstarters, Ring.progress, hfailed] at hstarting
  simp [MainPc.progress] at hstarting

def first (n numMsgs : Nat) : (∀ t : Thread n, Local t) × Memory n :=
  (fun
    | .main => { pc := .insertFrom n numMsgs 1, msgCheck := fun _ => false }
    | .worker _ => { start := true, pc := .receive }, { done := false, exited := fun _ => false })

theorem messages_kept_inserted : ∃ (s : State (Thread 1) (Chan 1) Nat)
    (g : (∀ t : Thread 1, Local t) × Memory 1), (ring 1 s g).queue .main = [1] ∧
      total ((ring 1 s g).held 1) = messages 1 ∧
      (((ring 1 s g).thread .main).pc = .failed →
        ∃ i, ((ring 1 s g).thread (.worker i)).start = true) := by
  let go (t : Thread 1) : Act (Thread 1) (Action (Thread 1) (Chan 1) Nat) :=
    .run (.run t fun _ => true)
  obtain ⟨tr, p, hr, -, hqueue⟩ :=
    replay_run (M := hosted (threads fun _ => 1) (program 1 1).client)
      (s := (State.initial (fun _ => 1) 0, first 1 1)) ⟨initial_init _ 0, rfl, fun _ => rfl, rfl⟩
      [.call .main, go .main, go .main, go .main, .ret .main]
      (fun _ p => (ring 1 p.1 p.2).queue .main = [1]) (by decide +kernel)
  obtain ⟨htotal, -, hstart⟩ := messages_kept (by decide) ⟨tr, hr⟩
  exact ⟨p.1, p.2, hqueue, htotal, hstart⟩

theorem stuck_returned (hb : b ≠ 0) (hload : numMsgs < n * (b + 1))
    (h : Reachable (hosted (threads fun _ => b) (program n numMsgs).client) (s, g))
    (hstuck : Stuck (threads fun _ => b) (program n numMsgs).client Action.due s g) :
    ((ring numMsgs s g).thread .main).pc = .failed ∨
      ((ring numMsgs s g).thread .main).pc = .returned ∧
        (∀ i, ((ring numMsgs s g).thread (.worker i)).pc = .exited) ∧
        ∀ m, 1 ≤ m → m ≤ numMsgs →
          ((ring numMsgs s g).thread .main).msgCheck m = true := by
  have hr := reached_ringed (channels_reached (fun _ => hb) h)
  have hno (w' : Ring n) (ht : Took (program n numMsgs) (fun _ => b)
      (ring numMsgs s g) w') : False :=
    channels_stuck (fun _ => hb) h hstuck w' (took_turn ht)
  refine (stuck_main hno hr hb hload).imp_right fun hover => ⟨hover, fun i => ?_, fun m hm hm' => ?_⟩
  · refine (hr.paced.exited i).mp (hr.paced.joined i ?_)
    rw [Ring.progress, hover]
    exact i.isLt
  · have hmem : m ∈ (ring numMsgs s g).held numMsgs .checked := by
      rw [all_checked hr (by rw [Ring.progress, hover]; rfl) (by rw [Ring.progress, hover]; rfl)]
      exact mem_messages.mpr ⟨hm, hm'⟩
    simp only [Ring.held, Multiset.mem_filter] at hmem
    exact hmem.2

theorem stuck_returned_alone : ∃ (s : State (Thread 1) (Chan 1) Nat)
    (g : (∀ t : Thread 1, Local t) × Memory 1), ((ring 1 s g).thread .main).pc = .returned ∧
      (∀ i, ((ring 1 s g).thread (.worker i)).pc = .exited) ∧
        ((ring 1 s g).thread .main).msgCheck 1 = true := by
  let go (t : Thread 1) : List (Act (Thread 1) (Action (Thread 1) (Chan 1) Nat)) :=
    [.run (.run t fun _ => true)]
  let use (t : Thread 1) : List (Act (Thread 1) (Action (Thread 1) (Chan 1) Nat)) :=
    [.call t] ++ go t ++ go t ++ go t ++ [.ret t]
  let close : List (Act (Thread 1) (Action (Thread 1) (Chan 1) Nat)) :=
    [.call .main] ++ (List.replicate 7 (go .main)).flatten ++ [.ret .main]
  obtain ⟨tr, p, hr, -, hover, hrun, hret, hcall, hmove⟩ :=
    replay_run (M := hosted (threads fun _ => 1) (program 1 1).client)
      (s := (State.initial (fun _ => 1) 0, first 1 1)) ⟨initial_init _ 0, rfl, fun _ => rfl, rfl⟩
      (use .main ++ use (.worker 0) ++ [.move (.worker 0)] ++ use (.worker 0) ++ use .main ++
        use (.worker 0) ++ [.move .main] ++ use (.worker 0) ++ [.move (.worker 0)] ++
        use (.worker 0) ++ use .main ++ use .main ++ use (.worker 0) ++
        [.move (.worker 0), .move .main] ++ close ++ close)
      (fun _ p => ((ring 1 p.1 p.2).thread .main).pc = .returned ∧
        (∀ t wake, ((threads fun _ => 1).run p.1 (.run t wake)).isNone) ∧
        (∀ t, ((threads fun _ => 1).ret p.1 t).isNone) ∧
        (∀ t, ((program 1 1).client.ask p.2 t).isNone) ∧
        ∀ t, ((program 1 1).client.move p.2 t).isNone)
      (by decide +kernel)
  have hstuck : Stuck (threads fun _ => 1) (program 1 1).client Action.due p.1 p.2 := by
    refine ⟨⟨fun a ha => ?_, fun t => by simpa using hret t⟩, fun t k hk => ?_,
      fun t => by simpa using hmove t⟩
    · cases a with
      | call t k => rfl
      | run t wake => simpa using hrun t wake
      | spurious t => exact ha.elim
    · simpa [hk] using hcall t
  refine ⟨p.1, p.2, hover, ?_⟩
  rcases stuck_returned (by decide) (by decide) ⟨tr, hr⟩ hstuck with hfailed | ⟨-, hexited, hchecked⟩
  · rw [hover] at hfailed
    cases hfailed
  · exact ⟨hexited, hchecked 1 (by decide) (by decide)⟩

end

end OperatingSystems.SendRecv
