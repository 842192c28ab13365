import Mathlib.Algebra.Order.BigOperators.Group.List
import Mathlib.Algebra.Order.Group.Nat
import OperatingSystems.Scheduling.LinkedList
import OperatingSystems.Scheduling.Policies

namespace OperatingSystems.Scheduling
open NodeChain ForLoop

namespace LinkedList
variable {ν δ β : Type}

-- the loop from `list_head` to `list_end`, with the outputs of its body
def walkToEnd [DecidableEq ν] (list : LinkedList ν δ) (fuel : Nat) (body : Option ν → List β) :
    Option (List β) :=
  forLoop (·.bind list.next) (· ≠ list.listEnd) (fun n => some (body n)) fuel list.head

-- a list that `list_insert` and `list_remove` have made out of `list_create`
def Built [DecidableEq ν] (fuel : Nat) (compare : Option (δ → δ → Int)) (list : LinkedList ν δ)
    (cells : Cells ν δ) : Prop :=
  ∃ (next prev : ν → Option ν) (data : ν → δ) (calls : List (Call ν δ)), calls.length < fuel ∧
    Fits compare [] calls ∧ (create compare next prev data).run fuel calls = some list ∧
    cells = calls.foldl (Call.onCells compare) []

section
variable {list : LinkedList ν δ} {compare : Option (δ → δ → Int)} {cells : Cells ν δ} {fuel : Nat}

variable [DecidableEq ν]

theorem built_keeps (h : Built fuel compare list cells) :
    list.Keeps compare cells ∧ cells.length < fuel := by
  obtain ⟨next, prev, data, calls, hfuel, hfits, hrun, rfl⟩ := h
  obtain ⟨list', hrun', hkeeps, hlen⟩ :=
    run_keeps (create_keeps compare next prev data) (by simpa using hfuel) hfits
  obtain rfl := Option.some.inj (hrun.symm.trans hrun')
  refine ⟨hkeeps, ?_⟩
  simp only [List.length_nil, Nat.zero_add] at hlen
  omega

-- the end marker is the tail, so the loop stops in front of the last node
theorem walkToEnd_dropLast (h : list.Keeps compare cells) (hfuel : cells.length < fuel)
    (body : Option ν → List β) :
    list.walkToEnd fuel body = some (cells.dropLast.flatMap fun c => body (some c.1)) := by
  have hchain := h.chain
  rcases List.eq_nil_or_concat cells with rfl | ⟨l, c, rfl⟩
  · have hwalk : Walk (·.bind list.next) (· ≠ list.listEnd) list.tail list.head [] :=
      (chain_head hchain).trans (chain_tail hchain).symm
    exact forLoop_walk hwalk (fun hne => hne rfl) (fun _ _ => rfl) hfuel
  · rw [List.concat_eq_append] at *
    have htail : list.tail = some c.1 := by simpa using chain_tail hchain
    rw [List.map_append] at hchain
    have hne : ∀ n ∈ l.map Prod.fst, some n ≠ list.listEnd := by
      intro n hn he
      have hnodup := (List.nodup_append.mp hchain.nodup).2.2 n hn c.1 (by simp)
      exact hnodup (Option.some.inj (he.trans htail))
    have hlen : (l.map Prod.fst).length < fuel := by
      simp only [List.length_append, List.length_singleton, List.length_map] at hfuel ⊢
      omega
    rw [walkToEnd, forLoop_chain (l.map Prod.fst) [c.1] hchain hne (fun h => h htail.symm) hlen
      (fun n => body (some n)) fun _ _ => rfl]
    simp [List.flatMap_map]

end

end LinkedList

-- `always_less`
def alwaysLess (_ _ : MLFQJob) : Int := -1

def schedulerMLFQDestroy {ν : Type} [DecidableEq ν] (fuel : Nat) (running : Option MLFQJob)
    (queues : Fin maxMLFQLevels → LinkedList ν MLFQJob) : Option (List MLFQJob) :=
  ((List.finRange maxMLFQLevels).mapM fun i =>
      (queues i).walkToEnd fuel fun n => (n.map (queues i).data).toList).map fun freed =>
    running.toList ++ freed.flatten

def MLFQInfo.wrappers (info : MLFQInfo) : List MLFQJob :=
  info.running.toList ++ (List.finRange maxMLFQLevels).flatMap info.queues

section
variable {ν δ : Type} [DecidableEq ν] {fuel : Nat}

theorem destroy_dropLast {queues : Fin maxMLFQLevels → LinkedList ν MLFQJob}
    {cells : Fin maxMLFQLevels → LinkedList.Cells ν MLFQJob}
    (h : ∀ i, (queues i).Keeps (some alwaysLess) (cells i) ∧ (cells i).length < fuel)
    (running : Option MLFQJob) :
    schedulerMLFQDestroy fuel running queues = some (running.toList ++
      (List.finRange maxMLFQLevels).flatMap fun i => ((cells i).map Prod.snd).dropLast) := by
  have hwalk : ∀ i, ((queues i).walkToEnd fuel fun n => (n.map (queues i).data).toList) =
      some (((cells i).map Prod.snd).dropLast) := by
    intro i
    rw [LinkedList.walkToEnd_dropLast (h i).1 (h i).2, ← List.map_dropLast, List.map_eq_flatMap]
    refine congrArg some (List.flatMap_congr fun c hc => ?_)
    simp [(h i).1.data c (List.dropLast_subset _ hc)]
  have hall : (List.finRange maxMLFQLevels).mapM (fun i => some ((cells i).map Prod.snd).dropLast) =
      some ((List.finRange maxMLFQLevels).map fun i => ((cells i).map Prod.snd).dropLast) :=
    List.mapM_pure
  rw [schedulerMLFQDestroy, funext hwalk, hall, Option.map_some, List.flatMap_def]

theorem walk_covers_iff :
    (∀ (compare : Option (δ → δ → Int)) (list : LinkedList ν δ) (cells : LinkedList.Cells ν δ),
      LinkedList.Built fuel compare list cells →
      ∃ visited, list.walkToEnd fuel Option.toList = some visited ∧
        (visited.Perm (cells.map Prod.fst) ↔ cells = [])) ∧
    ∀ (info : MLFQInfo) (queues : Fin maxMLFQLevels → LinkedList ν MLFQJob),
      (∀ i, ∃ cells, LinkedList.Built fuel (some alwaysLess) (queues i) cells ∧
        cells.map Prod.snd = info.queues i) →
      ∃ freed, schedulerMLFQDestroy fuel info.running queues = some freed ∧
        (freed.Perm info.wrappers ↔ ∀ i, info.queues i = []) := by
  constructor
  · intro compare list cells hbuilt
    obtain ⟨hkeeps, hfuel⟩ := LinkedList.built_keeps hbuilt
    have hvisited : (cells.dropLast.flatMap fun c => Option.toList (some c.1)) =
        cells.dropLast.map Prod.fst := List.map_eq_flatMap.symm
    refine ⟨_, LinkedList.walkToEnd_dropLast hkeeps hfuel _, fun hperm => ?_, ?_⟩
    · have hlen := hperm.length_eq
      rw [hvisited, List.length_map, List.length_map, List.length_dropLast] at hlen
      exact List.length_eq_zero_iff.mp (by omega)
    · rintro rfl
      rfl
  · intro info queues hqueues
    choose cells hbuilt hdata using hqueues
    have hfreed := destroy_dropLast (fun i => LinkedList.built_keeps (hbuilt i)) info.running
    simp only [hdata] at hfreed
    refine ⟨_, hfreed, ?_⟩
    rw [MLFQInfo.wrappers, List.perm_append_left_iff]
    constructor
    · intro hperm
      by_contra hne
      obtain ⟨i, hi⟩ := not_forall.mp hne
      have hlen := hperm.length_eq
      rw [List.length_flatMap, List.length_flatMap] at hlen
      refine Nat.ne_of_lt (List.sum_lt_sum _ _ (fun j _ => ?_) ⟨i, List.mem_finRange i, ?_⟩) hlen
      · rw [List.length_dropLast]
        exact Nat.sub_le _ _
      · have hpos := List.length_pos_of_ne_nil hi
        rw [List.length_dropLast]
        omega
    · intro hempty
      rw [show info.queues = fun _ => [] from funext hempty]
      exact List.Perm.refl _

end

-- a queue as `schedulerMLFQCreate` makes it
def emptyQueue : LinkedList Nat MLFQJob :=
  .create (some alwaysLess) (fun _ => none) (fun _ => none) fun _ => ⟨jobCreate 0 0 0 0, 0⟩

-- two jobs arrive and the first of them is taken to run, with another one already running
def takenCalls : List (LinkedList.Call Nat MLFQJob) :=
  [.insert (some 7) ⟨jobCreate 0 0 3 1, 0⟩, .insert (some 8) ⟨jobCreate 1 0 2 2, 0⟩, .remove 7]

def takenInfo : MLFQInfo where
  queues i := if i = 0 then [⟨jobCreate 1 0 2 2, 0⟩] else []
  running := some ⟨jobCreate 2 0 5 3, 1⟩
  lastTime := 0

theorem takenCalls_fits : LinkedList.Fits (some alwaysLess) [] takenCalls := by
  simp [takenCalls, LinkedList.Fits, LinkedList.Call.Fits, LinkedList.Call.onCells,
    LinkedList.Cells.place, listInsert, alwaysLess]

theorem walk_covers_taken : ∃ list freed, emptyQueue.run 4 takenCalls = some list ∧
    schedulerMLFQDestroy 4 takenInfo.running (fun i => if i = 0 then list else emptyQueue) =
      some freed ∧ ¬ freed.Perm takenInfo.wrappers := by
  obtain ⟨list, hrun⟩ : ∃ list, emptyQueue.run 4 takenCalls = some list := ⟨_, rfl⟩
  obtain ⟨freed, hfreed, hiff⟩ := (@walk_covers_iff Nat Nat _ 4).2 takenInfo
    (fun i => if i = 0 then list else emptyQueue) fun i => by
      by_cases hi : i = 0
      · subst hi
        exact ⟨_, ⟨_, _, _, takenCalls, by decide, takenCalls_fits, hrun, rfl⟩, by decide⟩
      · refine ⟨[], ?_, by simp [takenInfo, hi]⟩
        rw [if_neg hi]
        exact ⟨_, _, _, [], by decide, trivial, rfl, rfl⟩
  refine ⟨list, freed, hrun, hfreed, fun hperm => ?_⟩
  exact absurd (hiff.mp hperm 0) (by decide)

-- with one wrapper in the first queue no wrapper is freed; `list_destroy` does meet the node
theorem walk_misses_tail : ∃ list,
    emptyQueue.run 2 [.insert (some 7) ⟨jobCreate 0 0 3 1, 0⟩] = some list ∧
    list.walkToEnd 2 Option.toList = some [] ∧ list.destroy 2 = some [7] ∧
    schedulerMLFQDestroy 2 none (fun i => if i = 0 then list else emptyQueue) = some [] := by
  refine ⟨_, rfl, ?_, ?_, ?_⟩ <;> decide

end OperatingSystems.Scheduling
