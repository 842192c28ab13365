import OperatingSystems.Driver.StreeMap

namespace OperatingSystems.Driver
open LinkedTree LinkedTree.NodeTree LinkedTree.Links SortedMap Transition

-- `z` is the cell that `malloc` returns
inductive TreeCall (ν ρ : Type)
  | insert (key : Int) (record : Option ρ) (z : ν)
  | find (key : Int)
  | findNearest (key : Int)
  | remove (key : Int)
  | reset

inductive TreeResult (ρ : Type)
  | inserted (new : Bool)
  | record (r : Option ρ)
  | freed (records : Multiset (Option ρ))

variable {ν ρ : Type}

def mapCall (m : Entries Int (Option ρ)) : TreeCall ν ρ → TreeResult ρ × Entries Int (Option ρ)
  | .insert key record _ =>
    if (lookup m key).isNone then (.inserted true, insert m key record) else (.inserted false, m)
  | .find key => (.record (lookup m key).join, m)
  | .findNearest key => (.record (nearest m key).join, m)
  | .remove key => (.record (lookup m key).join, erase m key)
  | .reset => (.freed (m.map Prod.snd), [])

def maps (ν ρ : Type) : System (Entries Int (Option ρ)) (TreeCall ν ρ) (TreeResult ρ) where
  init m := m = []
  step m c := some (mapCall m c)

section
variable [DecidableEq ν] [Fintype ν]

namespace Tree

def call (t : Tree ν ρ) : TreeCall ν ρ → Option (TreeResult ρ × Tree ν ρ)
  | .insert key record z => (t.treeInsert key record z).map fun (new, t) => (.inserted new, t)
  | .find key => (t.treeFind key).map fun r => (.record r, t)
  | .findNearest key => (t.treeFindNearest key).map fun r => (.record r, t)
  | .remove key => (t.treeRemove key).map fun (r, t) => (.record r, t)
  | .reset => t.treeFree.map fun (records, t) => (.freed records, t.treeNew)

-- `malloc` does not hand out a cell twice
def Fresh (t : Tree ν ρ) : TreeCall ν ρ → Prop
  | .insert _ _ z => t.live z = false
  | _ => True

instance (t : Tree ν ρ) (c : TreeCall ν ρ) : Decidable (t.Fresh c) := by
  cases c <;> unfold Fresh <;> infer_instance

end Tree

-- a call that does not return is seen as `none`
def trees (ν ρ : Type) [DecidableEq ν] [Fintype ν] :
    System (Tree ν ρ) (TreeCall ν ρ) (Option (TreeResult ρ)) where
  init t := t.root = none ∧ t.nodeCount = 0 ∧ ∀ x, t.live x = false
  step t c :=
    if t.Fresh c then
      match t.call c with
      | some (r, t') => some (some r, t')
      | none => some (none, t)
    else none

def Stores (t : Tree ν ρ) (m : Entries Int (Option ρ)) : Prop :=
  ∃ s, t.Standing s ∧ t.entries s = m

theorem init_stores {t : Tree ν ρ} (h : (trees ν ρ).init t) : Stores t [] := by
  obtain ⟨hroot, hcount, hlive⟩ := h
  refine ⟨nil, ⟨⟨⟨fun e he => ?_, by simp, by simp⟩, by simp, fun x hx => ?_⟩, hcount⟩, rfl⟩
  · simp only [edges, innerEdges, root_nil, add_zero, Multiset.mem_singleton] at he
    subst he
    exact ⟨hroot, by simp⟩
  · rw [hlive x] at hx
    cases hx

theorem call_stores {t : Tree ν ρ} {m : Entries Int (Option ρ)} {c : TreeCall ν ρ}
    (h : Stores t m) (hc : t.Fresh c) :
    ∃ t', t.call c = some ((mapCall m c).1, t') ∧ Stores t' (mapCall m c).2 := by
  obtain ⟨s, hs, rfl⟩ := h
  cases c with
  | insert key record z =>
    obtain ⟨t', s', hinsert, hs', hentries⟩ := Tree.treeInsert_spec hs hc key record
    refine ⟨t', ?_, s', hs', hentries.trans ?_⟩
    · rw [Tree.call, hinsert, mapCall]
      cases lookup (t.entries s) key <;> rfl
    · rw [mapCall]
      cases lookup (t.entries s) key <;> rfl
  | find key => exact ⟨t, by rw [Tree.call, Tree.treeFind_eq hs.toKeyed]; rfl, s, hs, rfl⟩
  | findNearest key =>
    exact ⟨t, by rw [Tree.call, Tree.treeFindNearest_eq hs.toKeyed]; rfl, s, hs, rfl⟩
  | remove key =>
    obtain ⟨t', s', hremove, hs', hentries⟩ := Tree.treeRemove_spec hs key
    exact ⟨t', by rw [Tree.call, hremove]; rfl, s', hs', hentries⟩
  | reset =>
    obtain ⟨records, t', hfree, hperm, hs'⟩ := Tree.treeFree_spec hs
    refine ⟨t'.treeNew, ?_, nil, hs', rfl⟩
    rw [Tree.call, hfree, mapCall, ← Multiset.coe_eq_coe.mpr hperm]
    rfl

theorem trees_refine_maps {tr : List (Event (Tree ν ρ) (TreeCall ν ρ) (Option (TreeResult ρ)))}
    {t : Tree ν ρ} (h : Run (trees ν ρ) tr t) : ∃ tr' m, Run (maps ν ρ) tr' m ∧
      tr'.map Event.action = tr.map Event.action ∧ seen tr = (seen tr').map some ∧
        t.nodeCount = m.length := by
  have hall := h.along
    (P := fun tr t => ∃ tr' m, Run (maps ν ρ) tr' m ∧
      tr'.map Event.action = tr.map Event.action ∧ seen tr = (seen tr').map some ∧ Stores t m)
    (fun t hi => ⟨[], [], .start rfl, rfl, rfl, init_stores hi⟩) fun tr t c o t' hr hp hs => ?_
  · obtain ⟨tr', m, hrun, hact, hseen, s, hs, rfl⟩ := hall
    refine ⟨tr', _, hrun, hact, hseen, hs.count.trans ?_⟩
    simp [Tree.entries]
  · obtain ⟨tr', m, hrun, hact, hseen, hstores⟩ := hp
    by_cases hfresh : t.Fresh c
    · obtain ⟨t₁, hcall, hstores'⟩ := call_stores hstores hfresh
      simp only [trees, if_pos hfresh, hcall, Option.some.injEq, Prod.mk.injEq] at hs
      obtain ⟨rfl, rfl⟩ := hs
      have hstep : (maps ν ρ).step m c = some ((mapCall m c).1, (mapCall m c).2) := rfl
      refine ⟨_, _, hrun.next hstep, ?_, ?_, hstores'⟩
      · simp [hact]
      · simp [hseen]
    · simp only [trees, if_neg hfresh] at hs
      cases hs

end

def emptyTree (ν ρ : Type) : Tree ν ρ where
  root := none
  child _ _ := none
  parent _ := none
  nodeCount := 0
  live _ := false
  key _ := 0
  record _ := none

def mixedTreeCalls : List (TreeCall (Fin 5) Nat) :=
  [.insert 5 (some 50) 0, .insert 3 (some 30) 1, .insert 8 (some 80) 2, .insert 5 none 3,
    .findNearest 7, .remove 5, .findNearest 7]

theorem trees_refine_maps_mixed :
    ∃ tr t tr' m, Run (trees (Fin 5) Nat) tr t ∧ tr.map Event.action = mixedTreeCalls ∧
      Run (maps (Fin 5) Nat) tr' m ∧ seen tr = (seen tr').map some ∧ m.length = 2 := by
  obtain ⟨tr, t, hr, ha, hcount⟩ := replay_run (M := trees (Fin 5) Nat)
    (s := emptyTree (Fin 5) Nat)
    ⟨rfl, rfl, fun _ => rfl⟩ mixedTreeCalls (fun _ t => t.nodeCount = 2) (by decide +kernel)
  obtain ⟨tr', m, hr', -, hseen, hm⟩ := trees_refine_maps hr
  exact ⟨tr, t, tr', m, hr, ha, hr', hseen, hm ▸ hcount⟩

end OperatingSystems.Driver
