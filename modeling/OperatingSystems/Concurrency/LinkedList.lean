import OperatingSystems.Library.NodeChain

namespace OperatingSystems.Concurrency
open LinkedRing NodeChain

-- `list_t` with the nodes it can reach, `ν` being their addresses
structure LinkedList (ν δ : Type) where
  head : Option ν
  tail : Option ν
  count : Nat
  next : ν → Option ν
  prev : ν → Option ν
  data : ν → δ

namespace LinkedList
variable {ν δ : Type}

def create (next prev : ν → Option ν) (data : ν → δ) : LinkedList ν δ where
  head := none
  tail := none
  count := 0
  next := next
  prev := prev
  data := data

-- the loop of `list_find` from `cur` on
def findFrom [DecidableEq δ] (list : LinkedList ν δ) (data : δ) :
    Nat → Option ν → Option (Option ν)
  | 0, _ => none
  | _ + 1, none => some none
  | fuel + 1, some cur =>
    if list.data cur = data then some (some cur) else list.findFrom data fuel (list.next cur)

section
variable [DecidableEq ν]

def insert (list : LinkedList ν δ) (node : ν) (data : δ) : LinkedList ν δ where
  head := match list.tail with
    | some _ => list.head
    | none => some node
  tail := some node
  count := list.count + 1
  next := match list.tail with
    | some t => Function.update (Function.update list.next node none) t (some node)
    | none => Function.update list.next node none
  prev := Function.update list.prev node list.tail
  data := Function.update list.data node data

def remove (list : LinkedList ν δ) (node : ν) : LinkedList ν δ where
  head := if some node = list.head then list.next node else list.head
  tail := if some node = list.tail then list.prev node else list.tail
  count := list.count - 1
  next := match list.prev node with
    | some p => Function.update list.next p (list.next node)
    | none => list.next
  prev := match list.next node with
    | some n => Function.update list.prev n (list.prev node)
    | none => list.prev
  data := list.data

end

def succ (list : LinkedList ν δ) : Option ν → Option ν
  | none => list.head
  | some n => list.next n

def pred (list : LinkedList ν δ) : Option ν → Option ν
  | none => list.tail
  | some n => list.prev n

structure Holds (list : LinkedList ν δ) (nodes : List ν) : Prop where
  ring : Ring none list.succ list.pred (nodes.map some)
  nodup : nodes.Nodup
  count : list.count = nodes.length

theorem create_holds (next prev : ν → Option ν) (data : ν → δ) :
    (create next prev data).Holds [] :=
  ⟨ring_nil.mpr ⟨rfl, rfl⟩, List.nodup_nil, rfl⟩

theorem succ_joined (list : LinkedList ν δ) : list.succ = joined list.head list.next := by
  funext p
  cases p <;> rfl

theorem pred_joined (list : LinkedList ν δ) : list.pred = joined list.tail list.prev := by
  funext p
  cases p <;> rfl

theorem holds_iff {list : LinkedList ν δ} {nodes : List ν} : list.Holds nodes ↔
    Chain list.head list.tail list.next list.prev nodes ∧ list.count = nodes.length := by
  constructor
  · intro h
    have hring := h.ring
    rw [succ_joined, pred_joined] at hring
    exact ⟨⟨hring, h.nodup⟩, h.count⟩
  · rintro ⟨hchain, hcount⟩
    refine ⟨?_, hchain.nodup, hcount⟩
    rw [succ_joined, pred_joined]
    exact hchain.ring

theorem findFrom_find [DecidableEq δ] {list : LinkedList ν δ} (data : δ)
    (l₁ : List ν) {l₂ : List ν} (h : list.Holds (l₁ ++ l₂)) {fuel : Nat} (hfuel : l₂.length < fuel) :
    list.findFrom data fuel l₂.head? = some (l₂.find? fun n => list.data n = data) := by
  induction l₂ generalizing l₁ fuel with
  | nil =>
    obtain ⟨fuel, rfl⟩ := Nat.exists_eq_add_of_lt hfuel
    rfl
  | cons n l₂ ih =>
    obtain ⟨fuel, rfl⟩ := Nat.exists_eq_add_of_lt hfuel
    by_cases hn : list.data n = data
    · simp [findFrom, hn]
    · have hnext : list.next n = l₂.head? := (chain_next l₁ l₂ (holds_iff.mp h).1).1
      have hfuel' : l₂.length < l₂.length + 1 + fuel := by omega
      have hrest := ih (l₁ ++ [n]) (by simpa using h) hfuel'
      have hfind : List.find? (fun n => list.data n = data) (n :: l₂) =
          l₂.find? fun n => list.data n = data := List.find?_cons_of_neg (by simpa using hn)
      rw [hfind, ← hrest, ← hnext]
      simp [findFrom, hn]

theorem findFrom_mono [DecidableEq δ] {list : LinkedList ν δ} {data : δ} {fuel : Nat}
    {cur r : Option ν} (h : list.findFrom data fuel cur = some r) (k : Nat) :
    list.findFrom data (fuel + k) cur = some r := by
  induction fuel generalizing cur with
  | zero => cases h
  | succ fuel ih =>
    rw [Nat.succ_add]
    cases cur with
    | none => exact h
    | some n =>
      simp only [findFrom] at h ⊢
      split
      · simpa [*] using h
      · exact ih (by simpa [*] using h)

theorem find_first [DecidableEq δ] {list : LinkedList ν δ} {nodes : List ν} {data : δ} {fuel : Nat}
    {r : Option ν} (h : list.Holds nodes) (hr : list.findFrom data fuel list.head = some r) :
    r = nodes.find? fun n => list.data n = data := by
  have hhead : list.head = nodes.head? := chain_head (holds_iff.mp h).1
  have hfuel : nodes.length < nodes.length + 1 + fuel := by omega
  have hfull := findFrom_find data [] h hfuel
  rw [← hhead] at hfull
  have hmono := findFrom_mono hr (nodes.length + 1)
  rw [Nat.add_comm, hfull] at hmono
  exact (Option.some.inj hmono).symm

variable [DecidableEq ν]

theorem insert_holds {list : LinkedList ν δ} {nodes : List ν} (h : list.Holds nodes) {node : ν}
    (hnew : node ∉ nodes) (data : δ) : (list.insert node data).Holds (nodes ++ [node]) := by
  obtain ⟨hchain, hcount⟩ := holds_iff.mp h
  have hlast : list.tail = nodes.getLast? := chain_tail hchain
  refine holds_iff.mpr
    ⟨chain_insert nodes [] (by simpa using hchain) (by simpa using hnew) ?_ ?_, ?_⟩
  · rw [← hlast]
    cases ht : list.tail with
    | none => simp [insert, ht, update_joined_none, update_joined_some]
    | some t =>
      have hnt : node ≠ t := fun e => hnew (e ▸ List.mem_of_getLast? (hlast.symm.trans ht))
      simp [insert, ht, update_joined_some, Function.update_comm hnt]
  · rw [← hlast]
    simp [insert, update_joined_none, update_joined_some]
  · rw [List.length_append, ← hcount]
    rfl

theorem remove_holds {list : LinkedList ν δ} {l₁ l₂ : List ν} {node : ν}
    (h : list.Holds (l₁ ++ node :: l₂)) : (list.remove node).Holds (l₁ ++ l₂) := by
  obtain ⟨hchain, hcount⟩ := holds_iff.mp h
  obtain ⟨hhead, htail⟩ := chain_ends _ _ hchain
  refine holds_iff.mpr ⟨chain_remove _ _ hchain (fun p _ => ?_) fun p _ => ?_, ?_⟩
  · cases hp : list.prev node with
    | none => simp [remove, hp, hhead.mpr hp, update_joined_none]
    | some q =>
      have hne : ¬ some node = list.head := fun e => nomatch hp.symm.trans (hhead.mp e)
      simp [remove, hp, hne, update_joined_some]
  · cases hn : list.next node with
    | none => simp [remove, hn, htail.mpr hn, update_joined_none]
    | some q =>
      have hne : ¬ some node = list.tail := fun e => nomatch hn.symm.trans (htail.mp e)
      simp [remove, hn, hne, update_joined_some]
  · simp only [List.length_append, List.length_cons] at hcount ⊢
    simp only [remove, hcount]
    omega

section
variable [DecidableEq δ]

inductive Edit (δ : Type)
  | insert (data : δ)
  | remove (data : δ)

def Edit.apply (l : List δ) : Edit δ → List δ
  | .insert d => l ++ [d]
  | .remove d => l.erase d

-- a list that `list_insert` and `list_remove` of a `list_find` have made, with any nodes from `malloc`
inductive Made : LinkedList ν δ → List (Edit δ) → Prop
  | create (next prev : ν → Option ν) (data : ν → δ) : Made (create next prev data) []
  | insert {edits : List (Edit δ)} {list : LinkedList ν δ} (node : ν) (data : δ) :
      Made list edits → (∀ nodes, list.Holds nodes → node ∉ nodes) →
      Made (list.insert node data) (edits ++ [.insert data])
  | remove {edits : List (Edit δ)} {list : LinkedList ν δ} (fuel : Nat) (node : ν) (data : δ) :
      Made list edits → list.findFrom data fuel list.head = some (some node) →
      Made (list.remove node) (edits ++ [.remove data])
  | absent {edits : List (Edit δ)} {list : LinkedList ν δ} (fuel : Nat) (data : δ) :
      Made list edits → list.findFrom data fuel list.head = some none →
      Made list (edits ++ [.remove data])

theorem made_holds {edits : List (Edit δ)} {list : LinkedList ν δ} (h : list.Made edits) :
    ∃ nodes, list.Holds nodes ∧ nodes.map list.data = edits.foldl Edit.apply [] := by
  induction h with
  | create next prev data => exact ⟨[], create_holds next prev data, rfl⟩
  | @insert edits list node data _ hnew ih =>
    obtain ⟨nodes, hnodes, hdata⟩ := ih
    have hnew := hnew nodes hnodes
    refine ⟨nodes ++ [node], insert_holds hnodes hnew data, ?_⟩
    have hkeep : nodes.map (list.insert node data).data = nodes.map list.data := by
      refine List.map_congr_left fun n hn => Function.update_of_ne ?_ _ _
      rintro rfl
      exact hnew hn
    rw [List.map_append, hkeep, hdata, List.foldl_append]
    simp [insert, Edit.apply]
  | @remove edits list fuel node data _ hfind ih =>
    obtain ⟨nodes, hnodes, hdata⟩ := ih
    have hfirst := find_first hnodes hfind
    obtain ⟨hd, l₁, l₂, rfl, hbefore⟩ := List.find?_eq_some_iff_append.mp hfirst.symm
    refine ⟨l₁ ++ l₂, remove_holds hnodes, ?_⟩
    have hnot : data ∉ l₁.map list.data := by
      simpa using hbefore
    rw [List.foldl_append, ← hdata]
    simp only [List.map_append, List.map_cons, List.foldl_cons, List.foldl_nil, Edit.apply]
    rw [List.erase_append_right _ hnot, of_decide_eq_true hd, List.erase_cons_head]
    rfl
  | @absent edits list fuel data _ hfind ih =>
    obtain ⟨nodes, hnodes, hdata⟩ := ih
    refine ⟨nodes, hnodes, ?_⟩
    have hnone := List.find?_eq_none.mp (find_first hnodes hfind).symm
    rw [List.foldl_append, ← hdata]
    refine (List.erase_of_not_mem ?_).symm
    simpa using hnone

end

end LinkedList

end OperatingSystems.Concurrency
