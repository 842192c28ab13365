import OperatingSystems.Library.NodeChain
import OperatingSystems.Scheduling.EventLoop

namespace OperatingSystems.Scheduling
open NodeChain ForLoop

-- `list_t` with its nodes, `ν` being their addresses
structure LinkedList (ν δ : Type) where
  head : Option ν
  tail : Option ν
  count : Nat
  compare : Option (δ → δ → Int)
  next : ν → Option ν
  prev : ν → Option ν
  data : ν → δ

namespace LinkedList
variable {ν δ : Type}

def create (compare : Option (δ → δ → Int)) (next prev : ν → Option ν) (data : ν → δ) :
    LinkedList ν δ where
  head := none
  tail := none
  count := 0
  compare := compare
  next := next
  prev := prev
  data := data

-- the end of the list marker
def listEnd (list : LinkedList ν δ) : Option ν := list.tail

-- the nodes that `list_destroy` frees
def destroy (list : LinkedList ν δ) (fuel : Nat) : Option (List ν) :=
  forLoop (·.bind list.next) (·.isSome) (fun cur => some cur.toList) fuel list.head

def find [DecidableEq δ] (list : LinkedList ν δ) (fuel : Nat) (data : δ) : Option (Option ν) :=
  whileLoop (·.bind list.next) (fun cur => cur.any fun n => decide (list.data n ≠ data)) fuel
    list.head

-- the loop of `list_insert`
def position (list : LinkedList ν δ) (fuel : Nat) (compare : δ → δ → Int) (data : δ) :
    Option (Option ν) :=
  whileLoop (·.bind list.next)
    (fun curr => curr.any fun n => decide (compare (list.data n) data < 0)) fuel list.head

section
variable [DecidableEq ν]

def allocate (list : LinkedList ν δ) (newNode : ν) (data : δ) : LinkedList ν δ := { list with
  data := Function.update list.data newNode data
  next := Function.update list.next newNode none
  prev := Function.update list.prev newNode none }

def pushHead (list : LinkedList ν δ) (newNode : ν) : LinkedList ν δ := { list with
  next := Function.update list.next newNode list.head
  prev := match list.head with
    | some head => Function.update list.prev head (some newNode)
    | none => list.prev
  tail := match list.head with
    | some _ => list.tail
    | none => some newNode
  head := some newNode
  count := list.count + 1 }

def pushTail (list : LinkedList ν δ) (tail newNode : ν) : LinkedList ν δ := { list with
  prev := Function.update list.prev newNode (some tail)
  next := Function.update list.next tail (some newNode)
  tail := some newNode
  count := list.count + 1 }

def pushBefore (list : LinkedList ν δ) (curr newNode : ν) : LinkedList ν δ :=
  let next := Function.update list.next newNode (some curr)
  { list with
    next := match list.prev curr with
      | some p => Function.update next p (some newNode)
      | none => next
    head := match list.prev curr with
      | some _ => list.head
      | none => some newNode
    prev := Function.update (Function.update list.prev newNode (list.prev curr)) curr (some newNode)
    count := list.count + 1 }

-- `newNode` is what `malloc` returns; `none` stands for a loop that has not ended or a `NULL` that
-- is dereferenced
def insert (list : LinkedList ν δ) (fuel : Nat) (newNode : Option ν) (data : δ) :
    Option (Option ν × LinkedList ν δ) :=
  match newNode with
  | none => some (none, list)
  | some newNode =>
    let list := list.allocate newNode data
    match list.compare, list.head with
    | some compare, some _ => do
      match ← list.position fuel compare data with
      | none =>
        let tail ← list.tail
        return (some newNode, list.pushTail tail newNode)
      | some curr => return (some newNode, list.pushBefore curr newNode)
    | _, _ => some (some newNode, list.pushHead newNode)

def remove (list : LinkedList ν δ) (node : ν) : LinkedList ν δ :=
  let next := match list.prev node with
    | some p => Function.update list.next p (list.next node)
    | none => list.next
  let prev := match next node with
    | some n => Function.update list.prev n (list.prev node)
    | none => list.prev
  { list with
    head := if some node = list.head then list.next node else list.head
    tail := if some node = list.tail then list.prev node else list.tail
    next := Function.update next node none
    prev := Function.update prev node none
    count := list.count - 1 }

end

inductive Call (ν δ : Type)
  | insert (newNode : Option ν) (data : δ)
  | remove (node : ν)

def Call.perform [DecidableEq ν] (fuel : Nat) (list : LinkedList ν δ) :
    Call ν δ → Option (LinkedList ν δ)
  | .insert newNode data => (list.insert fuel newNode data).map Prod.snd
  | .remove node => some (list.remove node)

def run [DecidableEq ν] (fuel : Nat) (list : LinkedList ν δ) :
    List (Call ν δ) → Option (LinkedList ν δ)
  | [] => some list
  | call :: calls => (call.perform fuel list).bind fun list => list.run fuel calls

abbrev Cells (ν δ : Type) := List (ν × δ)

def Cells.place (compare : Option (δ → δ → Int)) (cells : Cells ν δ) (c : ν × δ) : Cells ν δ :=
  match compare with
  | none => c :: cells
  | some compare => listInsert (fun c₁ c₂ => compare c₁.2 c₂.2) c cells

def Call.onCells [DecidableEq ν] (compare : Option (δ → δ → Int)) (cells : Cells ν δ) :
    Call ν δ → Cells ν δ
  | .insert none _ => cells
  | .insert (some newNode) data => Cells.place compare cells (newNode, data)
  | .remove node => cells.eraseP fun c => c.1 = node

-- `malloc` returns no node of the list, and only nodes of the list are removed
def Call.Fits (cells : Cells ν δ) : Call ν δ → Prop
  | .insert none _ => True
  | .insert (some newNode) _ => newNode ∉ cells.map Prod.fst
  | .remove node => node ∈ cells.map Prod.fst

def Fits [DecidableEq ν] (compare : Option (δ → δ → Int)) (cells : Cells ν δ) :
    List (Call ν δ) → Prop
  | [] => True
  | call :: calls => call.Fits cells ∧ Fits compare (call.onCells compare cells) calls

structure Keeps (list : LinkedList ν δ) (compare : Option (δ → δ → Int)) (cells : Cells ν δ) :
    Prop where
  chain : Chain list.head list.tail list.next list.prev (cells.map Prod.fst)
  count : list.count = cells.length
  compare : list.compare = compare
  data : ∀ c ∈ cells, list.data c.1 = c.2

theorem create_keeps (compare : Option (δ → δ → Int)) (next prev : ν → Option ν) (data : ν → δ) :
    (create compare next prev data).Keeps compare [] :=
  ⟨chain_nil next prev, rfl, rfl, fun _ hc => nomatch hc⟩

theorem listInsert_split (compare : δ → δ → Int) (data : δ) (l : List δ) :
    ∃ l₁ l₂, l = l₁ ++ l₂ ∧ listInsert compare data l = l₁ ++ data :: l₂ ∧
      (∀ x ∈ l₁, compare x data < 0) ∧ ∀ x ∈ l₂.head?, ¬ compare x data < 0 := by
  induction l with
  | nil => exact ⟨[], [], rfl, rfl, by simp, by simp⟩
  | cons cur rest ih =>
    by_cases hlt : compare cur data < 0
    · obtain ⟨l₁, l₂, hl, hins, hbefore, hat⟩ := ih
      refine ⟨cur :: l₁, l₂, by rw [hl, List.cons_append], ?_, by simpa [hlt] using hbefore, hat⟩
      rw [listInsert, if_pos hlt, hins, List.cons_append]
    · exact ⟨[], cur :: rest, rfl, by rw [listInsert, if_neg hlt]; rfl, by simp, by simpa using hlt⟩

section
variable {list : LinkedList ν δ} {compare : Option (δ → δ → Int)} {cells cells₁ cells₂ : Cells ν δ}
  {fuel : Nat}

theorem loop_stops (test : δ → Prop) [DecidablePred test] (cells₁ cells₂ : Cells ν δ)
    (h : list.Keeps compare (cells₁ ++ cells₂))
    (hbefore : ∀ c ∈ cells₁, test c.2) (hat : ∀ c ∈ cells₂.head?, ¬ test c.2)
    (hfuel : (cells₁ ++ cells₂).length < fuel) :
    whileLoop (·.bind list.next) (fun cur => cur.any fun n => decide (test (list.data n))) fuel
      list.head = some (cells₂.map Prod.fst).head? := by
  have hchain := h.chain
  rw [List.map_append] at hchain
  refine whileLoop_chain _ _ hchain (fun n hn => ?_) ?_ ?_
  · obtain ⟨c, hc, rfl⟩ := List.mem_map.mp hn
    have hdata := h.data c (List.mem_append_left _ hc)
    simpa [hdata] using hbefore c hc
  · cases cells₂ with
    | nil => simp
    | cons c cells₂ =>
      have hdata := h.data c (by simp)
      simpa [hdata] using hat c rfl
  · simp only [List.length_append, List.length_map] at hfuel ⊢
    omega

theorem find_first [DecidableEq δ] (h : list.Keeps compare cells) (hfuel : cells.length < fuel)
    (data : δ) :
    list.find fuel data = some ((cells.find? fun c => c.2 = data).map Prod.fst) := by
  cases hfind : cells.find? fun c => decide (c.2 = data) with
  | none =>
    have habsent : ∀ c ∈ cells, c.2 ≠ data := by simpa using List.find?_eq_none.mp hfind
    exact loop_stops (fun d => d ≠ data) cells []
      (by simpa using h) habsent (fun _ hc => nomatch hc) (by simpa using hfuel)
  | some c =>
    obtain ⟨hc, cells₁, cells₂, rfl, hbefore⟩ := List.find?_eq_some_iff_append.mp hfind
    exact loop_stops (fun d => d ≠ data) cells₁ (c :: cells₂) h
      (by simpa using hbefore) (by simpa using hc) hfuel

variable [DecidableEq ν] {newNode : ν}

theorem allocate_keeps (h : list.Keeps compare cells) (hnew : newNode ∉ cells.map Prod.fst)
    (data : δ) : (list.allocate newNode data).Keeps compare cells := by
  refine ⟨chain_fresh h.chain hnew none none, h.count, h.compare, fun c hc => ?_⟩
  have hne : c.1 ≠ newNode := fun e => hnew (e ▸ List.mem_map_of_mem hc)
  rw [← h.data c hc]
  exact Function.update_of_ne hne _ _

theorem keeps_insert (cells₁ cells₂ : Cells ν δ) {list' : LinkedList ν δ}
    (h : list.Keeps compare (cells₁ ++ cells₂))
    (hnew : newNode ∉ (cells₁ ++ cells₂).map Prod.fst) (hdata : list'.data = list.data)
    (hcompare : list'.compare = list.compare) (hcount : list'.count = list.count + 1)
    (hnext : joined list'.head list'.next = Function.update (Function.update
      (joined list.head list.next) (cells₁.map Prod.fst).getLast? (some newNode)) (some newNode)
      (cells₂.map Prod.fst).head?)
    (hprev : joined list'.tail list'.prev = Function.update (Function.update
      (joined list.tail list.prev) (cells₂.map Prod.fst).head? (some newNode)) (some newNode)
      (cells₁.map Prod.fst).getLast?) :
    list'.Keeps compare (cells₁ ++ (newNode, list.data newNode) :: cells₂) := by
  have hchain := h.chain
  rw [List.map_append] at hchain hnew
  have hins := chain_insert _ _ hchain hnew hnext hprev
  refine ⟨by simpa using hins, ?_, hcompare.trans h.compare, fun c hc => ?_⟩
  · rw [hcount, h.count]
    simp only [List.length_append, List.length_cons]
    omega
  · rw [hdata]
    rcases List.mem_cons.mp (List.perm_middle.mem_iff.mp hc) with rfl | hc
    · rfl
    · exact h.data c hc

theorem pushHead_keeps (h : list.Keeps compare cells) (hnew : newNode ∉ cells.map Prod.fst)
    (hprev : list.prev newNode = none) :
    (list.pushHead newNode).Keeps compare ((newNode, list.data newNode) :: cells) := by
  have hhead := chain_head h.chain
  have htail := chain_tail h.chain
  refine keeps_insert [] cells h hnew rfl rfl rfl ?_ ?_
  · rw [← hhead]
    simp [pushHead, update_joined_none, update_joined_some]
  · cases cells with
    | nil =>
      have hhead' : list.head = none := hhead
      simp [pushHead, hhead', update_joined_none, update_joined_some, update_same hprev]
    | cons c cells =>
      have hhead' : list.head = some c.1 := hhead
      have hne : newNode ≠ c.1 := fun e => hnew (by simp [e])
      have hprev' : Function.update list.prev c.1 (some newNode) newNode = none := by
        simp [hne, hprev]
      simp [pushHead, hhead', update_joined_some, update_same hprev']

theorem pushTail_keeps {tail : ν} (h : list.Keeps compare cells)
    (hnew : newNode ∉ cells.map Prod.fst) (hnext : list.next newNode = none)
    (htail : list.tail = some tail) :
    (list.pushTail tail newNode).Keeps compare (cells ++ [(newNode, list.data newNode)]) := by
  have hlast : (cells.map Prod.fst).getLast? = some tail := (chain_tail h.chain).symm.trans htail
  have hne : newNode ≠ tail := fun e => hnew (List.mem_of_getLast? (e ▸ hlast))
  have hnext' : Function.update list.next tail (some newNode) newNode = none := by
    simp [hne, hnext]
  refine keeps_insert cells [] (by simpa using h) (by simpa using hnew) rfl rfl rfl ?_ ?_
  · rw [hlast]
    simp [pushTail, update_joined_some, update_same hnext']
  · rw [hlast]
    simp [pushTail, update_joined_none, update_joined_some]

theorem pushBefore_keeps {curr : ν × δ} (h : list.Keeps compare (cells₁ ++ curr :: cells₂))
    (hnew : newNode ∉ (cells₁ ++ curr :: cells₂).map Prod.fst) :
    (list.pushBefore curr.1 newNode).Keeps compare
      (cells₁ ++ (newNode, list.data newNode) :: curr :: cells₂) := by
  have hchain := h.chain
  rw [List.map_append, List.map_cons] at hchain
  obtain ⟨-, hprev⟩ := chain_next _ _ hchain
  have hne : newNode ≠ curr.1 := fun e => hnew (by simp [e])
  refine keeps_insert _ _ h hnew rfl rfl rfl ?_ ?_
  · rw [← hprev]
    cases hp : list.prev curr.1 with
    | none => simp [pushBefore, hp, update_joined_none, update_joined_some]
    | some p =>
      have hpn : newNode ≠ p := by
        have hmem : p ∈ cells₁.map Prod.fst := List.mem_of_getLast? (hprev.symm.trans hp)
        rintro rfl
        rw [List.map_append] at hnew
        exact hnew (List.mem_append_left _ hmem)
      simp [pushBefore, hp, update_joined_some, Function.update_comm hpn]
  · rw [← hprev]
    simp [pushBefore, update_joined_some, Function.update_comm hne]

theorem insert_keeps {newNode : Option ν} {data : δ} (h : list.Keeps compare cells)
    (hfits : (Call.insert newNode data).Fits cells) (hfuel : cells.length < fuel) :
    ∃ list', list.insert fuel newNode data = some (newNode, list') ∧
      list'.Keeps compare ((Call.insert newNode data).onCells compare cells) := by
  cases newNode with
  | none => exact ⟨list, rfl, h⟩
  | some newNode =>
    have hmade := allocate_keeps h hfits data
    have hdata : (list.allocate newNode data).data newNode = data := by simp [allocate]
    have hnext : (list.allocate newNode data).next newNode = none := by simp [allocate]
    have hprev : (list.allocate newNode data).prev newNode = none := by simp [allocate]
    unfold insert
    simp only [Call.onCells, Cells.place]
    generalize list.allocate newNode data = made at hmade hdata hnext hprev
    subst hdata
    have hnew : newNode ∉ cells.map Prod.fst := hfits
    have hhead := chain_head hmade.chain
    cases compare with
    | none =>
      simp only [hmade.compare]
      exact ⟨_, rfl, pushHead_keeps hmade hnew hprev⟩
    | some compare =>
      cases cells with
      | nil =>
        simp only [hmade.compare, show made.head = none from hhead]
        exact ⟨_, rfl, pushHead_keeps hmade hnew hprev⟩
      | cons c cells =>
        simp only [hmade.compare, show made.head = some c.1 from hhead]
        obtain ⟨cells₁, cells₂, hcells, hins, hbefore, hat⟩ := listInsert_split
          (fun c₁ c₂ => compare c₁.2 c₂.2) (newNode, made.data newNode) (c :: cells)
        rw [hins]
        rw [hcells] at hmade hnew hfuel
        have hstop := loop_stops (fun d => compare d (made.data newNode) < 0) _ _ hmade
          hbefore hat hfuel
        rw [position, hstop]
        cases cells₂ with
        | nil =>
          rw [List.append_nil] at hcells hmade hnew
          subst hcells
          obtain ⟨tail, htail⟩ : ∃ tail, made.tail = some tail := by
            refine Option.ne_none_iff_exists'.mp fun he => ?_
            exact nomatch List.getLast?_eq_none_iff.mp ((chain_tail hmade.chain).symm.trans he)
          rw [List.head?_map, List.head?_nil]
          simp only [htail]
          exact ⟨_, rfl, pushTail_keeps hmade hnew hnext htail⟩
        | cons curr cells₂ => exact ⟨_, rfl, pushBefore_keeps hmade hnew⟩

theorem remove_keeps {c : ν × δ} (h : list.Keeps compare (cells₁ ++ c :: cells₂)) :
    (list.remove c.1).Keeps compare (cells₁ ++ cells₂) := by
  have hchain := h.chain
  rw [List.map_append, List.map_cons] at hchain
  obtain ⟨hhead, htail⟩ := chain_ends _ _ hchain
  have hmid : c.1 ∉ (cells₁ ++ cells₂).map Prod.fst := by
    have hnodup := List.nodup_cons.mp (List.perm_middle.nodup_iff.mp hchain.nodup)
    simpa using hnodup.1
  obtain ⟨hnext, hprev⟩ := chain_next _ _ hchain
  have hpne : ∀ p, list.prev c.1 = some p → c.1 ≠ p := by
    rintro p hp rfl
    refine hmid ?_
    rw [List.map_append]
    exact List.mem_append_left _ (List.mem_of_getLast? (hprev.symm.trans hp))
  have hrem : Chain (list.remove c.1).head (list.remove c.1).tail (list.remove c.1).next
      (list.remove c.1).prev (cells₁.map Prod.fst ++ cells₂.map Prod.fst) := by
    refine chain_remove _ _ hchain (fun p hp => ?_) fun p hp => ?_
    · rw [remove, joined_update_ne hp]
      cases hc : list.prev c.1 with
      | none => rw [if_pos (hhead.mpr hc), update_joined_none]
      | some q => rw [if_neg (by simp [hhead, hc]), update_joined_some]
    · have hkeep : (match list.prev c.1 with
          | some q => Function.update list.next q (list.next c.1)
          | none => list.next) c.1 = list.next c.1 := by
        cases hc : list.prev c.1 with
        | none => rfl
        | some q => exact Function.update_of_ne (hpne q hc) _ _
      simp only [remove, joined_update_ne hp, hkeep]
      cases hc : list.next c.1 with
      | none => rw [if_pos (htail.mpr hc), update_joined_none]
      | some q => rw [if_neg (by simp [htail, hc]), update_joined_some]
  refine ⟨by simpa using hrem, ?_, h.compare, fun d hd => h.data d ?_⟩
  · have hcount := h.count
    simp only [List.length_append, List.length_cons] at hcount ⊢
    simp only [remove, hcount]
    omega
  · exact List.perm_middle.mem_iff.mpr (List.mem_cons_of_mem c hd)

theorem onCells_length (compare : Option (δ → δ → Int)) (call : Call ν δ) (cells : Cells ν δ) :
    (call.onCells compare cells).length ≤ cells.length + 1 := by
  cases call with
  | insert newNode data =>
    cases newNode with
    | none => exact Nat.le_succ _
    | some newNode =>
      cases compare with
      | none => exact Nat.le_refl _
      | some compare => exact (listInsert_perm _ _ _).length_eq.le
  | remove node => exact Nat.le_succ_of_le List.length_eraseP_le

theorem perform_keeps (h : list.Keeps compare cells) (hfuel : cells.length < fuel) (call : Call ν δ)
    (hfits : call.Fits cells) :
    ∃ list', call.perform fuel list = some list' ∧
      list'.Keeps compare (call.onCells compare cells) := by
  cases call with
  | insert newNode data =>
    obtain ⟨list', hins, hkeeps⟩ := insert_keeps h hfits hfuel
    exact ⟨list', by rw [Call.perform, hins]; rfl, hkeeps⟩
  | remove node =>
    obtain ⟨c₀, hc₀, rfl⟩ := List.mem_map.mp hfits
    obtain ⟨c, cells₁, cells₂, -, hc, rfl, herase⟩ :=
      List.exists_of_eraseP (p := fun c => c.1 = c₀.1) hc₀ (by simp)
    refine ⟨_, rfl, ?_⟩
    rw [Call.onCells, herase, ← of_decide_eq_true hc]
    exact remove_keeps h

theorem run_keeps {calls : List (Call ν δ)} (h : list.Keeps compare cells)
    (hfuel : cells.length + calls.length < fuel) (hfits : Fits compare cells calls) :
    ∃ list', list.run fuel calls = some list' ∧
      list'.Keeps compare (calls.foldl (Call.onCells compare) cells) ∧
      (calls.foldl (Call.onCells compare) cells).length ≤ cells.length + calls.length := by
  induction calls generalizing list cells with
  | nil => exact ⟨list, rfl, h, Nat.le_refl _⟩
  | cons call calls ih =>
    rw [List.length_cons] at hfuel
    have hlen := onCells_length compare call cells
    have hlt : cells.length < fuel := by omega
    obtain ⟨list₁, hcall, hkeeps⟩ := perform_keeps h hlt call hfits.1
    obtain ⟨list', hrun, hkeeps', hlen'⟩ := ih hkeeps (by omega) hfits.2
    exact ⟨list', by simp [run, hcall, hrun], hkeeps', by
      rw [List.foldl_cons, List.length_cons]
      omega⟩

theorem calls_sorted {le : δ → δ → Prop} {compare : δ → δ → Int}
    (hcompare : ∀ x y, compare x y < 0 ↔ ¬ le y x) (htotal : ∀ x y, le x y ∨ le y x)
    (htrans : ∀ x y z, le x y → le y z → le x z) {calls : List (Call ν δ)}
    (h : (cells.map Prod.snd).Pairwise le) :
    ((calls.foldl (Call.onCells (some compare)) cells).map Prod.snd).Pairwise le := by
  induction calls generalizing cells with
  | nil => exact h
  | cons call calls ih =>
    refine ih ?_
    rw [List.pairwise_map] at h ⊢
    cases call with
    | insert newNode data =>
      cases newNode with
      | none => exact h
      | some newNode =>
        exact listInsert_sorted (fun c₁ c₂ : ν × δ => le c₁.2 c₂.2)
          (fun _ _ => hcompare _ _) (fun _ _ => htotal _ _) (fun _ _ _ => htrans _ _ _) h _
    | remove node => exact h.sublist List.eraseP_sublist

theorem sorted_list_refines [DecidableEq δ] {calls : List (Call ν δ)} (hfuel : calls.length < fuel)
    (hfits : Fits compare [] calls) (next prev : ν → Option ν) (data : ν → δ) :
    ∃ list, (create compare next prev data).run fuel calls = some list ∧
      ∃ cells, cells = calls.foldl (Call.onCells compare) [] ∧
        Chain list.head list.tail list.next list.prev (cells.map Prod.fst) ∧
        list.count = cells.length ∧ (cells.map Prod.fst).map list.data = cells.map Prod.snd ∧
        (∀ d, list.find fuel d = some ((cells.find? fun c => c.2 = d).map Prod.fst)) ∧
        ∀ (le : δ → δ → Prop) (cmp : δ → δ → Int), compare = some cmp →
          (∀ x y, cmp x y < 0 ↔ ¬ le y x) → (∀ x y, le x y ∨ le y x) →
          (∀ x y z, le x y → le y z → le x z) → (cells.map Prod.snd).Pairwise le := by
  obtain ⟨list, hrun, hkeeps, hlen⟩ :=
    run_keeps (create_keeps compare next prev data) (by simpa using hfuel) hfits
  have hfuel' : (calls.foldl (Call.onCells compare) []).length < fuel := by
    simp only [List.length_nil, Nat.zero_add] at hlen
    omega
  refine ⟨list, hrun, _, rfl, hkeeps.chain, hkeeps.count, ?_, find_first hkeeps hfuel', ?_⟩
  · rw [List.map_map]
    exact List.map_congr_left hkeeps.data
  · rintro le cmp rfl hcompare htotal htrans
    exact calls_sorted hcompare htotal htrans (by simp)

theorem sorted_list_refines_repeated : ∃ list,
    (create (some fun x y : Int => x - y) (fun _ : Nat => none) (fun _ => none) fun _ => 0).run 6
      [.insert (some 0) 5, .insert (some 1) 3, .insert none 4, .insert (some 2) 3, .remove 0] =
        some list ∧ Chain list.head list.tail list.next list.prev [2, 1] ∧
    list.find 6 3 = some (some 2) := by
  have hfuel : ([.insert (some 0) 5, .insert (some 1) 3, .insert none 4, .insert (some 2) 3,
      .remove 0] : List (Call Nat Int)).length < 6 := by decide
  have hfits : Fits (some fun x y => x - y) [] ([.insert (some 0) 5, .insert (some 1) 3,
      .insert none 4, .insert (some 2) 3, .remove 0] : List (Call Nat Int)) := by
    simp [Fits, Call.Fits, Call.onCells, Cells.place, listInsert]
  obtain ⟨list, hrun, cells, hcells, hchain, -, -, hfind, -⟩ :=
    sorted_list_refines hfuel hfits (fun _ => none) (fun _ => none) fun _ => 0
  have hend : cells = [(2, 3), (1, 3)] := by rw [hcells]; decide
  subst hend
  exact ⟨list, hrun, hchain, hfind 3⟩

end

end LinkedList

end OperatingSystems.Scheduling
