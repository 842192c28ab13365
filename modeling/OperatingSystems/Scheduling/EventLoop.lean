import OperatingSystems.Scheduling.Simulator

namespace OperatingSystems.Scheduling
open Transition

variable {σ β : Type}

section
variable {δ : Type} (compare : δ → δ → Int)

theorem listInsert_orderedInsert (data : δ) (l : List δ) :
    listInsert compare data l = l.orderedInsert (fun x y => ¬ compare y x < 0) data := by
  induction l with
  | nil => rfl
  | cons cur l ih =>
    rw [listInsert, List.orderedInsert_cons, ih]
    split <;> simp_all

theorem listInsert_perm (data : δ) (l : List δ) : (listInsert compare data l).Perm (data :: l) := by
  rw [listInsert_orderedInsert]
  exact List.perm_orderedInsert _ data l

theorem listInsert_sorted {compare : δ → δ → Int} (le : δ → δ → Prop)
    (hcompare : ∀ x y, compare x y < 0 ↔ ¬ le y x) (htotal : ∀ x y, le x y ∨ le y x)
    (htrans : ∀ x y z, le x y → le y z → le x z) {l : List δ} (h : l.Pairwise le) (data : δ) :
    (listInsert compare data l).Pairwise le := by
  have hle : ∀ x y, ¬ compare y x < 0 ↔ le x y := by simp [hcompare]
  have htotal' : Std.Total fun x y => ¬ compare y x < 0 :=
    ⟨fun x y => by simpa only [hle] using htotal x y⟩
  have htrans' : IsTrans _ fun x y => ¬ compare y x < 0 :=
    ⟨fun x y z => by simpa only [hle] using htrans x y z⟩
  rw [listInsert_orderedInsert]
  exact (List.Pairwise.orderedInsert data l (h.imp (hle _ _).mpr)).imp (hle _ _).mp

end

def Event.le (e₁ e₂ : Event β) : Prop :=
  e₁.timestamp < e₂.timestamp ∨ e₁.timestamp = e₂.timestamp ∧
    (e₁.type.code < e₂.type.code ∨ e₁.type.code = e₂.type.code ∧ e₁.id ≤ e₂.id)

theorem compare_neg (e₁ e₂ : Event β) : simulatorEventCompare e₁ e₂ < 0 ↔ ¬ e₂.le e₁ := by
  unfold simulatorEventCompare Event.le
  split_ifs <;> simp <;> omega

theorem le_total (e₁ e₂ : Event β) : e₁.le e₂ ∨ e₂.le e₁ := by
  unfold Event.le
  omega

theorem le_trans {e₁ e₂ e₃ : Event β} (h : e₁.le e₂) (h' : e₂.le e₃) : e₁.le e₃ := by
  unfold Event.le at *
  omega

def InOrder (queue : List (Nat × Event β)) : Prop := queue.Pairwise fun n₁ n₂ => n₁.2.le n₂.2

theorem listInsert_inOrder {queue : List (Nat × Event β)} (h : InOrder queue)
    (n : Nat × Event β) :
    InOrder (listInsert (fun n₁ n₂ => simulatorEventCompare n₁.2 n₂.2) n queue) := by
  exact listInsert_sorted (fun n₁ n₂ : Nat × Event β => n₁.2.le n₂.2)
    (fun _ _ => compare_neg _ _) (fun _ _ => le_total _ _) (fun _ _ _ => le_trans) h n

structure Ledger (sim : Simulator β) (executed : List Nat) : Prop where
  inOrder : InOrder sim.queue
  nodes : (executed ++ sim.removed ++ sim.queue.map Prod.fst).Perm
    (List.range sim.scheduled.length)
  named : ∀ n ∈ sim.queue, sim.scheduled[n.1]? = some n.2
  future : ∀ n ∈ sim.queue, sim.simTime ≤ n.2.timestamp
  numbered : ∀ (n : Nat) (e : Event β), sim.scheduled[n]? = some e → e.id = wrap n
  next : sim.id = wrap sim.scheduled.length

theorem create_ledger : Ledger (simulatorCreate : Simulator β) [] := by
  refine ⟨.nil, .nil, ?_, ?_, ?_, rfl⟩ <;> simp [simulatorCreate]

theorem schedule_ledger {sim sim' : Simulator β} {executed : List Nat} (h : Ledger sim executed)
    {timestamp : Nat} {type : EventType} {callback : β} {node : Nat}
    (hs : sim.schedule timestamp type callback = some (node, sim')) :
    Ledger sim' executed ∧ sim'.simTime = sim.simTime ∧
      sim'.queue.Perm ((node, ⟨timestamp, type, sim.id, callback⟩) :: sim.queue) := by
  unfold Simulator.schedule at hs
  split at hs
  · rename_i htime
    cases hs
    have hperm := listInsert_perm (fun n₁ n₂ => simulatorEventCompare n₁.2 n₂.2)
      (sim.scheduled.length, (⟨timestamp, type, sim.id, callback⟩ : Event β)) sim.queue
    refine ⟨⟨listInsert_inOrder h.inOrder _, ?_, fun n hn => ?_, fun n hn => ?_, fun n e he => ?_, ?_⟩,
      rfl, hperm⟩
    · rw [List.length_append, List.length_singleton, List.range_succ]
      refine ((hperm.map Prod.fst).append_left _).trans ?_
      rw [List.map_cons]
      exact List.perm_middle.trans ((h.nodes.cons _).trans (List.perm_append_singleton _ _).symm)
    · rcases List.mem_cons.mp (hperm.mem_iff.mp hn) with rfl | hn
      · simp
      · exact List.getElem?_append_left (List.getElem?_eq_some_iff.mp (h.named n hn)).1 ▸ h.named n hn
    · rcases List.mem_cons.mp (hperm.mem_iff.mp hn) with rfl | hn
      · exact htime
      · exact h.future n hn
    · rcases Nat.lt_or_ge n sim.scheduled.length with hlt | hge
      · exact h.numbered n e (List.getElem?_append_left hlt ▸ he)
      · rw [List.getElem?_append_right hge, List.getElem?_singleton] at he
        split at he
        · cases he
          rw [h.next, show n = sim.scheduled.length by omega]
        · cases he
    · simp [h.next, wrap]
  · cases hs

theorem listRemove_perm {sim sim' : Simulator β} {node : Nat}
    (hr : sim.listRemove node = some sim') :
    ∃ event, sim.queue.Perm ((node, event) :: sim'.queue) ∧ sim'.queue.Sublist sim.queue ∧
      sim' = { sim with queue := sim'.queue } := by
  unfold Simulator.listRemove at hr
  split at hr
  · rename_i hmem
    cases hr
    obtain ⟨n, hn, rfl⟩ := List.mem_map.mp hmem
    obtain ⟨m, l₁, l₂, -, hm, hsplit, herase⟩ :=
      List.exists_of_eraseP (p := fun m => decide (m.1 = n.1)) hn (decide_eq_true rfl)
    obtain ⟨k, event⟩ := m
    obtain rfl : k = n.1 := of_decide_eq_true hm
    refine ⟨event, ?_, List.eraseP_sublist, rfl⟩
    dsimp only
    rw [herase, hsplit]
    exact List.perm_middle
  · cases hr

theorem listRemove_isSome {sim : Simulator β} {n : Nat × Event β} (hn : n ∈ sim.queue) :
    ∃ sim', sim.listRemove n.1 = some sim' :=
  ⟨_, if_pos (List.mem_map_of_mem hn)⟩

theorem Ledger.take {sim sim' : Simulator β} {executed : List Nat} (h : Ledger sim executed)
    (executed' removed' : List Nat) {node : Nat} (hr : sim.listRemove node = some sim')
    (hgone : (executed' ++ removed').Perm (node :: (executed ++ sim.removed))) :
    Ledger { sim' with removed := removed' } executed' := by
  obtain ⟨event, hperm, hsub, he⟩ := listRemove_perm hr
  rw [he]
  refine ⟨h.inOrder.sublist hsub, ?_, fun n hn => h.named n (hsub.subset hn),
    fun n hn => h.future n (hsub.subset hn), h.numbered, h.next⟩
  refine (hgone.append_right _).trans (.trans ?_ h.nodes)
  exact List.perm_middle.symm.trans ((hperm.map Prod.fst).symm.append_left _)

-- what a callback may do to the simulator while the event of node `executing` runs
inductive Edits (executing : Option Nat) (sim₀ : Simulator β) : Simulator β → Prop
  | start : Edits executing sim₀ sim₀
  | schedule {sim sim' : Simulator β} (timestamp : Nat) (type : EventType) (callback : β)
      (node : Nat) : Edits executing sim₀ sim → sim.simTime ≤ timestamp →
      sim.schedule timestamp type callback = some (node, sim') → Edits executing sim₀ sim'
  | remove {sim sim' : Simulator β} (eventRef : Nat) : Edits executing sim₀ sim →
      eventRef ∈ sim.queue.map Prod.fst → some eventRef ≠ executing →
      sim.removeEvent eventRef = some sim' → Edits executing sim₀ sim'

def Obeys (call : Callbacks σ β) (w : σ × Simulator β) : Prop :=
  ∀ node event rest, w.2.queue = (node, event) :: rest →
    ∃ w', call event.callback (w.1, { w.2 with simTime := event.timestamp }) = some w' ∧
      Edits (some node) { w.2 with simTime := event.timestamp } w'.2

theorem edits_ledger {executing : Option Nat} {sim₀ sim : Simulator β} {executed : List Nat}
    (h : Edits executing sim₀ sim) (hl : Ledger sim₀ executed) :
    Ledger sim executed ∧ sim.simTime = sim₀.simTime ∧
      ∀ n ∈ sim₀.queue, some n.1 = executing → n ∈ sim.queue := by
  induction h with
  | start => exact ⟨hl, rfl, fun n hn _ => hn⟩
  | schedule timestamp type callback node _ _ hs ih =>
    obtain ⟨hledger, htime, hkeep⟩ := ih
    obtain ⟨hledger', htime', hperm⟩ := schedule_ledger hledger hs
    exact ⟨hledger', htime'.trans htime,
      fun n hn he => hperm.mem_iff.mpr (List.mem_cons_of_mem _ (hkeep n hn he))⟩
  | @remove sim sim' eventRef _ _ hne hr ih =>
    obtain ⟨hledger, htime, hkeep⟩ := ih
    obtain ⟨sim₁, hlist, rfl⟩ := Option.map_eq_some_iff.mp hr
    obtain ⟨event, hperm, -, he⟩ := listRemove_perm hlist
    refine ⟨?_, ?_, fun n hn hex => ?_⟩
    · have hremoved : sim₁.removed = sim.removed := by rw [he]
      rw [hremoved]
      exact hledger.take _ _ hlist (by rw [← List.append_assoc]; exact List.perm_append_singleton _ _)
    · rw [he]
      exact htime
    · rcases List.mem_cons.mp (hperm.mem_iff.mp (hkeep n hn hex)) with rfl | hn'
      · exact absurd hex hne
      · exact hn'

theorem edits_scheduled {executing : Option Nat} {sim₀ sim : Simulator β}
    (h : Edits executing sim₀ sim) : sim₀.scheduled <+: sim.scheduled := by
  induction h with
  | start => exact List.prefix_rfl
  | schedule timestamp type callback node _ htime hs ih =>
    unfold Simulator.schedule at hs
    rw [if_pos htime] at hs
    cases hs
    exact ih.trans (List.prefix_append _ _)
  | remove eventRef _ _ _ hr ih =>
    obtain ⟨sim₁, hlist, rfl⟩ := Option.map_eq_some_iff.mp hr
    obtain ⟨event, -, -, he⟩ := listRemove_perm hlist
    rw [he]
    exact ih

theorem Ledger.advance {sim : Simulator β} {executed : List Nat} (h : Ledger sim executed)
    {n : Nat × Event β} {rest : List (Nat × Event β)} (hq : sim.queue = n :: rest) :
    Ledger { sim with simTime := n.2.timestamp } executed := by
  refine ⟨h.inOrder, h.nodes, h.named, fun m hm => ?_, h.numbered, h.next⟩
  have horder := h.inOrder
  simp only [hq, InOrder, List.pairwise_cons] at horder
  rw [hq] at hm
  rcases List.mem_cons.mp hm with rfl | hm
  · exact le_rfl
  · have := horder.1 m hm
    unfold Event.le at this
    dsimp only
    omega

theorem Ledger.remove {sim : Simulator β} {executed : List Nat} (h : Ledger sim executed)
    {n : Nat × Event β} {others : List (Nat × Event β)} (hq : sim.queue.Perm (n :: others)) :
    ∃ sim', sim.listRemove n.1 = some sim' ∧ sim'.queue.Perm others ∧
      sim' = { sim with queue := sim'.queue } := by
  have hn : n ∈ sim.queue := hq.mem_iff.mpr (List.mem_cons_self ..)
  obtain ⟨sim', hr⟩ := listRemove_isSome hn
  obtain ⟨event, hperm, -, he⟩ := listRemove_perm hr
  have hsame : (n.1, event) = n := by
    have hnamed := h.named _ (hperm.mem_iff.mpr (List.mem_cons_self ..))
    rw [h.named n hn] at hnamed
    exact Prod.ext rfl (Option.some.inj hnamed).symm
  rw [hsame] at hperm
  exact ⟨sim', hr, (hperm.symm.trans hq).cons_inv, he⟩

def loop (call : Callbacks σ β) (w₀ : σ × Simulator β) :
    System (σ × Simulator β) Unit (Nat × Event β) where
  init := fun w => w = w₀
  step := fun w _ => executeNext call w

theorem executeNext_ledger {call : Callbacks σ β} {w : σ × Simulator β} {executed : List Nat}
    (hl : Ledger w.2 executed) (hobeys : Obeys call w) {n : Nat × Event β}
    {rest : List (Nat × Event β)} (hq : w.2.queue = n :: rest) :
    ∃ w', executeNext call w = some (n, w') ∧ Ledger w'.2 (executed ++ [n.1]) ∧
      w'.2.simTime = n.2.timestamp ∧ w.2.scheduled <+: w'.2.scheduled := by
  obtain ⟨node, event⟩ := n
  obtain ⟨w', hcall, hedits⟩ := hobeys node event rest hq
  obtain ⟨hledger, htime, hkeep⟩ := edits_ledger hedits (hl.advance hq)
  have hmem := hkeep (node, event) (by simp [hq]) rfl
  obtain ⟨sim, hr⟩ := listRemove_isSome hmem
  obtain ⟨event', -, -, he⟩ := listRemove_perm hr
  refine ⟨(w'.1, sim), ?_, ?_, ?_, ?_⟩
  · unfold executeNext
    rw [hq]
    simp [hcall, hr]
  · have hremoved : sim.removed = w'.2.removed := by rw [he]
    have htake := hledger.take (executed ++ [node]) sim.removed hr ?_
    · exact htake
    · rw [hremoved, List.append_assoc]
      exact List.perm_middle
  · dsimp only
    rw [he]
    exact htime
  · have hprefix := edits_scheduled hedits
    dsimp only
    rw [he]
    exact hprefix

section
variable {call : Callbacks σ β} {w₀ w : σ × Simulator β}
  {tr : List (Transition.Event (σ × Simulator β) Unit (Nat × Event β))}

theorem executeNext_eq {r : (Nat × Event β) × (σ × Simulator β)} (h : executeNext call w = some r) :
    ∃ rest w' sim, w.2.queue = r.1 :: rest ∧
      call r.1.2.callback (w.1, { w.2 with simTime := r.1.2.timestamp }) = some w' ∧
      w'.2.listRemove r.1.1 = some sim ∧ r.2 = (w'.1, sim) := by
  unfold executeNext at h
  split at h
  · cases h
  · rename_i hq
    obtain ⟨w', hcall, h⟩ := Option.bind_eq_some_iff.mp h
    obtain ⟨sim, hr, rfl⟩ := Option.map_eq_some_iff.mp h
    exact ⟨_, w', sim, hq, hcall, hr, rfl⟩

theorem loop_step {r : (Nat × Event β) × (σ × Simulator β)} (h : executeNext call w = some r) :
    ∃ rest, w.2.queue = r.1 :: rest := by
  obtain ⟨rest, -, -, hq, -⟩ := executeNext_eq h
  exact ⟨rest, hq⟩

def Event.lt (e₁ e₂ : Event β) : Prop :=
  e₁.timestamp < e₂.timestamp ∨ e₁.timestamp = e₂.timestamp ∧
    (e₁.type.code < e₂.type.code ∨ e₁.type.code = e₂.type.code ∧ e₁.id < e₂.id)

-- the callback of the event runs at the time of the event; what it makes of the simulator, less
-- the node of the event itself, is what the next iteration starts from
def Ran (call : Callbacks σ β) (e : Transition.Event (σ × Simulator β) Unit (Nat × Event β))
    (after : σ × Simulator β) : Prop :=
  ∃ w', call e.seen.2.callback (e.before.1, { e.before.2 with simTime := e.seen.2.timestamp }) =
      some w' ∧ e.seen ∈ w'.2.queue ∧
    after = (w'.1, { w'.2 with queue := w'.2.queue.filter fun n => n.1 ≠ e.seen.1 })

-- each event is picked as the first of those pending, with the clock at its own time
structure PickedInOrder (tr : List (Transition.Event (σ × Simulator β) Unit (Nat × Event β)))
    (sim : Simulator β) : Prop where
  scheduled : ∀ n ∈ seen tr, sim.scheduled[n.1]? = some n.2 ∧ n.2.id = n.1
  least : ∀ e ∈ tr, ∀ n ∈ e.before.2.queue, n ≠ e.seen → e.seen.2.lt n.2
  clock : (tr.map fun e => e.before.2.simTime) ++ [sim.simTime] =
    0 :: (seen tr).map fun n => n.2.timestamp
  ordered : (0 :: (seen tr).map fun n => n.2.timestamp).Pairwise (· ≤ ·)

theorem scheduled_mono {sim sim' : Simulator β} (h : sim.scheduled <+: sim'.scheduled)
    {n : Nat × Event β} (hn : sim.scheduled[n.1]? = some n.2) : sim'.scheduled[n.1]? = some n.2 := by
  obtain ⟨more, hmore⟩ := h
  rw [← hmore, List.getElem?_append_left (List.getElem?_eq_some_iff.mp hn).1]
  exact hn

theorem ledger_id {sim : Simulator β} {executed : List Nat} (h : Ledger sim executed)
    (hcount : sim.scheduled.length < 2 ^ 64) {n : Nat × Event β} (hn : n ∈ sim.queue) :
    n.2.id = n.1 := by
  have hnamed := h.named n hn
  rw [h.numbered n.1 n.2 hnamed]
  exact wrap_of_lt ((List.getElem?_eq_some_iff.mp hnamed).1.trans hcount)

theorem pending_lt {sim : Simulator β} {executed : List Nat} (h : Ledger sim executed)
    (hcount : sim.scheduled.length < 2 ^ 64) {n : Nat × Event β} {rest : List (Nat × Event β)}
    (hq : sim.queue = n :: rest) {m : Nat × Event β} (hm : m ∈ sim.queue) (hne : m ≠ n) :
    n.2.lt m.2 := by
  have hrest : m ∈ rest := by
    rw [hq] at hm
    exact (List.mem_cons.mp hm).resolve_left hne
  have horder := h.inOrder
  simp only [InOrder, hq, List.pairwise_cons] at horder
  have hle := horder.1 m hrest
  have hids : n.2.id ≠ m.2.id := by
    have hn : n ∈ sim.queue := by simp [hq]
    rw [ledger_id h hcount hn, ledger_id h hcount hm]
    intro hnode
    have hm' := h.named m hm
    rw [← hnode, h.named n hn] at hm'
    exact hne (Prod.ext hnode.symm (Option.some.inj hm').symm)
  unfold Event.le at hle
  unfold Event.lt
  omega

theorem run_pickedInOrder (hstart : Edits none simulatorCreate w₀.2)
    (hobeys : ∀ w, Reachable (loop call w₀) w → Obeys call w)
    (hcount : ∀ w, Reachable (loop call w₀) w → w.2.scheduled.length < 2 ^ 64)
    (h : Run (loop call w₀) tr w) :
    Ledger w.2 ((seen tr).map Prod.fst) ∧ PickedInOrder tr w.2 := by
  refine h.along (P := fun tr w => Ledger w.2 ((seen tr).map Prod.fst) ∧ PickedInOrder tr w.2)
    (fun w hw => ?_) fun tr w _ n w' hr ⟨hl, hx⟩ hs => ?_
  · obtain rfl : w = w₀ := hw
    obtain ⟨hl, htime, -⟩ := edits_ledger hstart create_ledger
    refine ⟨hl, by simp, by simp, ?_, by simp⟩
    rw [htime]
    rfl
  · have hs : executeNext call w = some (n, w') := hs
    obtain ⟨rest, hq⟩ := loop_step hs
    obtain ⟨w₁, hs₁, hl', htime, hprefix⟩ :=
      executeNext_ledger hl (hobeys w ⟨tr, hr⟩) hq
    obtain rfl : w₁ = w' := by
      rw [hs] at hs₁
      exact (Prod.mk.inj (Option.some.inj hs₁)).2.symm
    have hn : n ∈ w.2.queue := by simp [hq]
    refine ⟨by simpa using hl', fun m hm => ?_, fun e he m hm hne => ?_, ?_, ?_⟩
    · rw [seen_append] at hm
      rcases List.mem_append.mp hm with hm | hm
      · obtain ⟨hm, hid⟩ := hx.scheduled m hm
        exact ⟨scheduled_mono hprefix hm, hid⟩
      · obtain rfl : m = n := by simpa using hm
        exact ⟨scheduled_mono hprefix (hl.named _ hn), ledger_id hl (hcount w ⟨tr, hr⟩) hn⟩
    · rcases List.mem_append.mp he with he | he
      · exact hx.least e he m hm hne
      · cases List.mem_singleton.mp he
        exact pending_lt hl (hcount w ⟨tr, hr⟩) hq hm hne
    · rw [List.map_append, seen_append, List.map_append, List.map_singleton, ← List.cons_append,
        ← hx.clock]
      simp [htime]
    · have hordered := hx.ordered
      rw [← hx.clock] at hordered
      rw [seen_append, List.map_append, ← List.cons_append, ← hx.clock]
      obtain ⟨-, -, hlast⟩ := List.pairwise_append.mp hordered
      refine List.pairwise_append.mpr ⟨hordered, List.pairwise_singleton _ _, fun x hx y hy => ?_⟩
      obtain rfl : y = n.2.timestamp := by simpa using hy
      have hnow := hl.future n hn
      rcases List.mem_append.mp hx with hx | hx
      · exact (hlast x hx _ (List.mem_singleton.mpr rfl)).trans hnow
      · exact (List.mem_singleton.mp hx).le.trans hnow

theorem run_simulatorRun (h : Run (loop call w₀) tr w) (fuel : Nat) :
    simulatorRun call (tr.length + fuel) w₀ = simulatorRun call fuel w := by
  refine h.along (P := fun tr w => ∀ fuel,
    simulatorRun call (tr.length + fuel) w₀ = simulatorRun call fuel w) (fun w hw fuel => ?_)
    (fun tr w _ n w' _ ih hs fuel => ?_) fuel
  · obtain rfl : w = w₀ := hw
    rw [List.length_nil, Nat.zero_add]
  · have hs : executeNext call w = some (n, w') := hs
    obtain ⟨rest, hq⟩ := loop_step hs
    rw [List.length_append, List.length_singleton, Nat.add_assoc, Nat.add_comm 1 fuel, ih,
      simulatorRun, if_neg (by simp [hq]), hs]
    rfl

theorem loop_ends (hstart : Edits none simulatorCreate w₀.2)
    (hobeys : ∀ w, Reachable (loop call w₀) w → Obeys call w)
    (hcount : ∀ w, Reachable (loop call w₀) w → w.2.scheduled.length < 2 ^ 64) (k : Nat) :
    ∃ tr w, Run (loop call w₀) tr w ∧ (w.2.queue = [] ∨ tr.length = k) := by
  induction k with
  | zero => exact ⟨[], w₀, .start rfl, .inr rfl⟩
  | succ k ih =>
    obtain ⟨tr, w, hr, hq | hlength⟩ := ih
    · exact ⟨tr, w, hr, .inl hq⟩
    · cases hq : w.2.queue with
      | nil => exact ⟨tr, w, hr, .inl hq⟩
      | cons n rest =>
        obtain ⟨hl, -⟩ := run_pickedInOrder hstart hobeys hcount hr
        obtain ⟨w', hs, -⟩ := executeNext_ledger hl (hobeys w ⟨tr, hr⟩) hq
        exact ⟨_, w', hr.next (a := ()) hs, .inr (by simp [hlength])⟩

theorem eraseP_eq_filter {queue : List (Nat × Event β)} (h : (queue.map Prod.fst).Nodup)
    (node : Nat) :
    queue.eraseP (fun n => n.1 = node) = queue.filter fun n => n.1 ≠ node := by
  induction queue with
  | nil => rfl
  | cons m queue ih =>
    obtain ⟨hnew, hnodup⟩ := List.nodup_cons.mp h
    by_cases hm : m.1 = node
    · have hothers : queue.filter (fun n => n.1 ≠ node) = queue :=
        List.filter_eq_self.mpr fun n hn =>
          decide_eq_true fun he => hnew (List.mem_map.mpr ⟨n, hn, he.trans hm.symm⟩)
      rw [List.filter_cons_of_neg (by simpa using hm), hothers]
      exact List.eraseP_cons_of_pos (decide_eq_true hm)
    · rw [List.filter_cons_of_pos (by simpa using hm), ← ih hnodup]
      exact List.eraseP_cons_of_neg (by simpa using hm)

theorem listRemove_filter {sim sim' : Simulator β} {executed : List Nat} {node : Nat}
    (h : Ledger sim executed) (hr : sim.listRemove node = some sim') :
    sim' = { sim with queue := sim.queue.filter fun n => n.1 ≠ node } := by
  have hnodup := (List.nodup_append.mp (h.nodes.nodup_iff.mpr List.nodup_range)).2.1
  unfold Simulator.listRemove at hr
  split at hr
  · cases hr
    rw [eraseP_eq_filter hnodup]
  · cases hr

theorem run_ran (hstart : Edits none simulatorCreate w₀.2)
    (hobeys : ∀ w, Reachable (loop call w₀) w → Obeys call w)
    (hcount : ∀ w, Reachable (loop call w₀) w → w.2.scheduled.length < 2 ^ 64)
    (h : Run (loop call w₀) tr w)
    {tr₁ tr₂ : List (Transition.Event (σ × Simulator β) Unit (Nat × Event β))}
    {e : Transition.Event (σ × Simulator β) Unit (Nat × Event β)} (he : tr = tr₁ ++ e :: tr₂) :
    Ran call e (following tr₂ w) := by
  obtain ⟨hr, hs⟩ := h.steps he
  obtain ⟨rest, w', sim, hq, hcall, hremove, hafter⟩ := executeNext_eq hs
  obtain ⟨w₁, hcall₁, hedits⟩ := hobeys e.before ⟨tr₁, hr⟩ _ _ _ hq
  obtain rfl : w₁ = w' := Option.some.inj (hcall₁.symm.trans hcall)
  obtain ⟨hl, -⟩ := run_pickedInOrder hstart hobeys hcount hr
  obtain ⟨hl', -, hkeep⟩ := edits_ledger hedits (hl.advance hq)
  refine ⟨w₁, hcall, hkeep e.seen (by simp [hq]) rfl, ?_⟩
  rw [← listRemove_filter hl' hremove]
  exact hafter

theorem event_loop {call : Callbacks σ β} {w₀ : σ × Simulator β}
    (hstart : Edits none simulatorCreate w₀.2)
    (hobeys : ∀ w, Reachable (loop call w₀) w → Obeys call w)
    (hcount : ∀ w, Reachable (loop call w₀) w → w.2.scheduled.length < 2 ^ 64) :
    ∃ fuel w tr, simulatorRun call fuel w₀ = some w ∧ Run (loop call w₀) tr w ∧
      following tr w = w₀ ∧ w.2.queue = [] ∧
      ((seen tr).map Prod.fst ++ w.2.removed).Perm (List.range w.2.scheduled.length) ∧
      (∀ tr₁ e tr₂, tr = tr₁ ++ e :: tr₂ → Ran call e (following tr₂ w)) ∧
      PickedInOrder tr w.2 := by
  obtain ⟨tr, w, hr, hend⟩ := loop_ends hstart hobeys hcount (2 ^ 64)
  obtain ⟨hl, hx⟩ := run_pickedInOrder hstart hobeys hcount hr
  have hempty : w.2.queue = [] := by
    refine hend.resolve_right fun hlength => ?_
    have hnodes := hl.nodes.length_eq
    simp only [List.length_append, List.length_map, seen, List.length_range] at hnodes
    have := hcount w ⟨tr, hr⟩
    omega
  refine ⟨tr.length + 1, w, tr, ?_, hr, hr.begins, hempty, ?_,
    fun tr₁ e tr₂ he => run_ran hstart hobeys hcount hr he, hx⟩
  · rw [run_simulatorRun hr, simulatorRun, if_pos hempty]
  · simpa [hempty] using hl.nodes

end

-- the first arrival schedules a completion for its own time, which comes in front of its node, and
-- takes back the arrival at 5; each callback notes the time
def threeCallbacks : Callbacks (List Nat) Bool
  | true, (times, sim) => do
    let (_, sim) ← sim.schedule sim.simTime .completion false
    let sim ← sim.removeEvent 1
    some (times ++ [sim.simTime], sim)
  | false, (times, sim) => some (times ++ [sim.simTime], sim)

def threeArrivals : List Nat × Simulator Bool :=
  ([], ⟨[(0, ⟨3, .arrival, 0, true⟩), (1, ⟨5, .arrival, 1, false⟩),
      (2, ⟨7, .arrival, 2, false⟩)], 0, 3,
    [⟨3, .arrival, 0, true⟩, ⟨5, .arrival, 1, false⟩, ⟨7, .arrival, 2, false⟩], []⟩)

theorem threeArrivals_edits : Edits none simulatorCreate threeArrivals.2 :=
  .schedule 7 .arrival false 2 (.schedule 5 .arrival false 1 (.schedule 3 .arrival true 0 .start
    (Nat.zero_le _) rfl) (Nat.zero_le _) rfl) (Nat.zero_le _) rfl

def onward (w : List Nat × Simulator Bool) : List Nat × Simulator Bool :=
  ((executeNext threeCallbacks w).map Prod.snd).getD w

theorem three_reachable {w : List Nat × Simulator Bool}
    (h : Reachable (loop threeCallbacks threeArrivals) w) :
    w = threeArrivals ∨ w = onward threeArrivals ∨ w = onward (onward threeArrivals) ∨
      w = onward (onward (onward threeArrivals)) := by
  refine h.always (P := fun w => w = threeArrivals ∨ w = onward threeArrivals ∨
    w = onward (onward threeArrivals) ∨ w = onward (onward (onward threeArrivals)))
    (fun w hw => .inl hw) fun w _ n w' _ hw hs => ?_
  have hs : executeNext threeCallbacks w = some (n, w') := hs
  have hnext : w' = onward w := by simp [onward, hs]
  rcases hw with rfl | rfl | rfl | rfl
  · exact .inr (.inl hnext)
  · exact .inr (.inr (.inl hnext))
  · exact .inr (.inr (.inr hnext))
  · cases hs

theorem three_obeys {w : List Nat × Simulator Bool}
    (h : Reachable (loop threeCallbacks threeArrivals) w) : Obeys threeCallbacks w := by
  intro node event rest hq
  rcases three_reachable h with rfl | rfl | rfl | rfl
  · cases hq
    exact ⟨_, rfl, .remove 1 (.schedule 3 .completion false 3 .start le_rfl rfl) (by decide)
      (by decide) rfl⟩
  · cases hq
    exact ⟨_, rfl, .start⟩
  · cases hq
    exact ⟨_, rfl, .start⟩
  · cases hq

theorem event_loop_three : ∃ fuel w tr, simulatorRun threeCallbacks fuel threeArrivals = some w ∧
    Run (loop threeCallbacks threeArrivals) tr w ∧ w.1 = [3, 3, 7] ∧ w.2.removed = [1] ∧
      ((seen tr).map Prod.fst).Perm [0, 2, 3] ∧
      ∀ tr₁ e tr₂, tr = tr₁ ++ e :: tr₂ → Ran threeCallbacks e (following tr₂ w) := by
  have hcount : ∀ w, Reachable (loop threeCallbacks threeArrivals) w →
      w.2.scheduled.length < 2 ^ 64 := fun w h => by
    rcases three_reachable h with rfl | rfl | rfl | rfl <;> decide
  obtain ⟨fuel, w, tr, hrun, hr, -, hempty, hperm, hran, -⟩ :=
    event_loop threeArrivals_edits (fun w h => three_obeys h) hcount
  refine ⟨fuel, w, tr, hrun, hr, ?_⟩
  obtain rfl : w = onward (onward (onward threeArrivals)) := by
    rcases three_reachable ⟨tr, hr⟩ with rfl | rfl | rfl | rfl
    · cases hempty
    · cases hempty
    · cases hempty
    · rfl
  refine ⟨rfl, rfl, ?_, hran⟩
  have hall : [0, 1, 2, 3].Perm ([0, 2, 3] ++ [1]) := by decide
  exact (List.perm_append_right_iff [1]).mp (hperm.trans hall)

end OperatingSystems.Scheduling
