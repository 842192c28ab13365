import OperatingSystems.Library.NodeChain
import Mathlib.Data.Int.Basic

namespace OperatingSystems.Homework
open NodeChain ForLoop

-- `head` and the `Node`s, `ν` being their addresses
structure LinkedList (ν : Type) where
  head : Option ν
  data : ν → Int
  next : ν → Option ν
  prev : ν → Option ν

-- what a display function sends to `printf`
inductive Printed
  | text (s : String)
  | number (value : Int)
deriving DecidableEq, Repr

def Printed.value : Printed → Option Int
  | .text _ => none
  | .number value => some value

namespace LinkedList
variable {ν : Type}

def empty (data : ν → Int) (next prev : ν → Option ν) : LinkedList ν where
  head := none
  data := data
  next := next
  prev := prev

-- the loop that moves `temp` to the end of the list
def moveToEnd (list : LinkedList ν) (fuel : Nat) (temp : Option ν) : Option (Option ν) :=
  whileLoop (·.bind list.next) (fun temp => (temp.bind list.next).isSome) fuel temp

-- the loop of `deleteNode`
def search (list : LinkedList ν) (fuel : Nat) (value : Int) (temp : Option ν) :
    Option (Option ν) :=
  whileLoop (·.bind list.next) (fun temp => temp.any fun n => decide (list.data n ≠ value)) fuel
    temp

def number (list : LinkedList ν) (temp : Option ν) : Option (List Printed) :=
  temp.map fun n => [.number (list.data n)]

def displayForward (list : LinkedList ν) (fuel : Nat) : Option (List Printed) :=
  (forLoop (·.bind list.next) (·.isSome) list.number fuel list.head).map fun out =>
    .text "List (Forward): " :: (out ++ [.text "\n"])

def displayBackward (list : LinkedList ν) (fuel : Nat) : Option (List Printed) :=
  match list.head with
  | none => some []
  | some head => do
    let temp ← list.moveToEnd fuel (some head)
    let out ← forLoop (·.bind list.prev) (·.isSome) list.number fuel temp
    return .text "List (Backward): " :: (out ++ [.text "\n"])

section
variable [DecidableEq ν]

-- `newNode` is the cell that `malloc` returns
def createNode (list : LinkedList ν) (newNode : ν) (data : Int) : LinkedList ν where
  head := list.head
  data := Function.update list.data newNode data
  next := Function.update list.next newNode none
  prev := Function.update list.prev newNode none

def insertAtBeginning (list : LinkedList ν) (newNode : ν) (data : Int) : LinkedList ν :=
  let list := list.createNode newNode data
  match list.head with
  | none => { list with head := some newNode }
  | some head => { list with
      next := Function.update list.next newNode (some head)
      prev := Function.update list.prev head (some newNode)
      head := some newNode }

-- `none` stands for a loop that has not ended or a `NULL` that is dereferenced
def insertAtEnd (list : LinkedList ν) (fuel : Nat) (newNode : ν) (data : Int) :
    Option (LinkedList ν) :=
  let list := list.createNode newNode data
  match list.head with
  | none => some { list with head := some newNode }
  | some head => do
    let temp ← list.moveToEnd fuel (some head)
    let last ← temp
    return { list with
      next := Function.update list.next last (some newNode)
      prev := Function.update list.prev newNode (some last) }

def deleteHead (list : LinkedList ν) (temp : ν) : LinkedList ν := { list with
  head := list.next temp
  prev := match list.next temp with
    | some head => Function.update list.prev head none
    | none => list.prev }

def deleteInner (list : LinkedList ν) (temp : ν) : LinkedList ν :=
  let next := match list.prev temp with
    | some p => Function.update list.next p (list.next temp)
    | none => list.next
  { list with
    next := next
    prev := match next temp with
      | some n => Function.update list.prev n (list.prev temp)
      | none => list.prev }

def deleteNode (list : LinkedList ν) (fuel : Nat) (value : Int) : Option (LinkedList ν) :=
  match list.head with
  | none => some list
  | some head => do
    let temp ← list.search fuel value (some head)
    return match temp with
      | none => list
      | some temp => if some temp = list.head then list.deleteHead temp else list.deleteInner temp

end

inductive Call (ν : Type)
  | insertAtBeginning (newNode : ν) (data : Int)
  | insertAtEnd (newNode : ν) (data : Int)
  | deleteNode (value : Int)

def Call.perform [DecidableEq ν] (fuel : Nat) (list : LinkedList ν) :
    Call ν → Option (LinkedList ν)
  | .insertAtBeginning newNode data => some (list.insertAtBeginning newNode data)
  | .insertAtEnd newNode data => list.insertAtEnd fuel newNode data
  | .deleteNode value => list.deleteNode fuel value

def run [DecidableEq ν] (fuel : Nat) (list : LinkedList ν) : List (Call ν) → Option (LinkedList ν)
  | [] => some list
  | call :: calls => (call.perform fuel list).bind fun list => list.run fuel calls

def Call.onValues (values : List Int) : Call ν → List Int
  | .insertAtBeginning _ data => data :: values
  | .insertAtEnd _ data => values ++ [data]
  | .deleteNode value => values.erase value

def Call.onCells (cells : List (ν × Int)) : Call ν → List (ν × Int)
  | .insertAtBeginning newNode data => (newNode, data) :: cells
  | .insertAtEnd newNode data => cells ++ [(newNode, data)]
  | .deleteNode value => cells.eraseP fun c => c.2 = value

-- `malloc` returns no cell that is in use
def Call.Fresh (cells : List (ν × Int)) : Call ν → Prop
  | .insertAtBeginning newNode _ | .insertAtEnd newNode _ => newNode ∉ cells.map Prod.fst
  | .deleteNode _ => True

def Fresh (cells : List (ν × Int)) : List (Call ν) → Prop
  | [] => True
  | call :: calls => call.Fresh cells ∧ Fresh (call.onCells cells) calls

structure Keeps (list : LinkedList ν) (cells : List (ν × Int)) : Prop where
  chain : Chain list.head (cells.map Prod.fst).getLast? list.next list.prev (cells.map Prod.fst)
  data : ∀ c ∈ cells, list.data c.1 = c.2

theorem empty_keeps (data : ν → Int) (next prev : ν → Option ν) :
    (empty data next prev).Keeps [] :=
  ⟨chain_nil next prev, fun _ hc => nomatch hc⟩

section
variable {list : LinkedList ν} {cells cells₁ cells₂ : List (ν × Int)} {newNode : ν} {fuel : Nat}

theorem moveToEnd_last (h : list.Keeps cells) (hfuel : cells.length < fuel) {head : ν}
    (hhead : list.head = some head) :
    list.moveToEnd fuel (some head) = some (cells.map Prod.fst).getLast? := by
  have hchain := h.chain
  rcases List.eq_nil_or_concat (cells.map Prod.fst) with he | ⟨l, last, he⟩
  · rw [he] at hchain
    exact absurd (hhead.symm.trans (chain_head hchain)) (by simp)
  · rw [List.concat_eq_append] at he
    rw [he, List.getLast?_concat] at hchain ⊢
    have hgo : ∀ n ∈ l, ((some n).bind list.next).isSome = true := by
      intro n hn
      obtain ⟨a, b, rfl⟩ := List.append_of_mem hn
      have hnext := (chain_next a (b ++ [last]) (by simpa using hchain)).1
      cases b <;> simp [hnext]
    have hlast : list.next last = none := (chain_next l [] (by simpa using hchain)).1
    have hlen : l.length < fuel := by
      have := congrArg List.length he
      simp only [List.length_map, List.length_append, List.length_singleton] at this
      omega
    rw [moveToEnd, ← hhead]
    exact whileLoop_chain l [last] hchain hgo (by simp [hlast]) hlen

theorem search_stops (cells₁ cells₂ : List (ν × Int)) (h : list.Keeps (cells₁ ++ cells₂))
    {value : Int} (hbefore : ∀ c ∈ cells₁, c.2 ≠ value) (hat : ∀ c ∈ cells₂.head?, c.2 = value)
    (hfuel : (cells₁ ++ cells₂).length < fuel) :
    list.search fuel value list.head = some (cells₂.map Prod.fst).head? := by
  have hchain := h.chain
  rw [List.map_append] at hchain
  refine whileLoop_chain _ _ hchain (fun n hn => ?_) ?_ ?_
  · obtain ⟨c, hc, rfl⟩ := List.mem_map.mp hn
    have hdata := h.data c (List.mem_append_left _ hc)
    simpa [hdata] using hbefore c hc
  · cases cells₂ with
    | nil => simp
    | cons c cells₂ =>
      have hdata := h.data c (by simp)
      simp [hdata, hat c rfl]
  · simp only [List.length_append, List.length_map] at hfuel ⊢
    omega

theorem number_loop {first last : Option ν} {link back : ν → Option ν}
    (hchain : Chain first last link back (cells.map Prod.fst))
    (hdata : ∀ c ∈ cells, list.data c.1 = c.2) (hfuel : cells.length < fuel) :
    forLoop (·.bind link) (·.isSome) list.number fuel first =
      some (cells.map fun c => .number c.2) := by
  rw [forLoop_chain (cells.map Prod.fst) [] (by simpa using hchain) (fun _ _ => rfl) (by simp)
    (by simpa using hfuel) (fun n => [.number (list.data n)]) fun _ _ => rfl]
  rw [List.flatMap_map, List.map_eq_flatMap]
  refine congrArg some (List.flatMap_congr fun c hc => ?_)
  rw [hdata c hc]

theorem values_numbers (cells : List (ν × Int)) :
    cells.filterMap (Printed.value ∘ fun c => Printed.number c.2) = cells.map Prod.snd :=
  congrFun List.filterMap_eq_map cells

theorem displayForward_values (h : list.Keeps cells) (hfuel : cells.length < fuel) :
    ∃ out, list.displayForward fuel = some out ∧
      out.filterMap Printed.value = cells.map Prod.snd := by
  refine ⟨_, by rw [displayForward, number_loop h.chain h.data hfuel]; rfl, ?_⟩
  simp [List.filterMap_cons, values_numbers, Printed.value]

theorem displayBackward_values (h : list.Keeps cells) (hfuel : cells.length < fuel) :
    ∃ out, list.displayBackward fuel = some out ∧
      out.filterMap Printed.value = (cells.map Prod.snd).reverse := by
  cases hhead : list.head with
  | none =>
    have hnil : (cells.map Prod.fst).head? = none := (chain_head h.chain).symm.trans hhead
    obtain rfl : cells = [] := by simpa using hnil
    exact ⟨[], by simp [displayBackward, hhead], rfl⟩
  | some head =>
    have hchain := chain_reverse h.chain
    rw [← List.map_reverse] at hchain
    have hlen : cells.reverse.length < fuel := by simpa using hfuel
    have hback := number_loop hchain (fun c hc => h.data c (List.mem_reverse.mp hc)) hlen
    refine ⟨_, by simp only [displayBackward, hhead, moveToEnd_last h hfuel hhead,
      Option.bind_eq_bind, Option.bind_some, hback]; rfl, ?_⟩
    simp [List.filterMap_cons, values_numbers, Printed.value]

theorem onCells_values (call : Call ν) (cells : List (ν × Int)) :
    (call.onCells cells).map Prod.snd = call.onValues (cells.map Prod.snd) := by
  cases call with
  | insertAtBeginning newNode data => rfl
  | insertAtEnd newNode data => simp [Call.onCells, Call.onValues]
  | deleteNode value =>
    simp only [Call.onCells, Call.onValues, List.erase_eq_eraseP, List.eraseP_map]
    congr 2
    funext c
    exact decide_eq_decide.mpr eq_comm

theorem onCells_length (call : Call ν) (cells : List (ν × Int)) :
    (call.onCells cells).length ≤ cells.length + 1 := by
  cases call with
  | insertAtBeginning newNode data => exact Nat.le_refl _
  | insertAtEnd newNode data => simp [Call.onCells]
  | deleteNode value =>
    exact Nat.le_succ_of_le List.length_eraseP_le

variable [DecidableEq ν]

theorem createNode_keeps (h : list.Keeps cells) (hnew : newNode ∉ cells.map Prod.fst) (data : Int) :
    (list.createNode newNode data).Keeps cells := by
  refine ⟨chain_fresh h.chain hnew none none, fun c hc => ?_⟩
  have hne : c.1 ≠ newNode := fun e => hnew (e ▸ List.mem_map_of_mem hc)
  rw [← h.data c hc]
  exact Function.update_of_ne hne _ _

theorem keeps_insert (cells₁ cells₂ : List (ν × Int)) {list' : LinkedList ν}
    (h : list.Keeps (cells₁ ++ cells₂))
    (hnew : newNode ∉ (cells₁ ++ cells₂).map Prod.fst) (hdata : list'.data = list.data)
    (hnext : joined list'.head list'.next = Function.update (Function.update
      (joined list.head list.next) (cells₁.map Prod.fst).getLast? (some newNode)) (some newNode)
      (cells₂.map Prod.fst).head?)
    (hprev : joined (cells₁.map Prod.fst ++ newNode :: cells₂.map Prod.fst).getLast? list'.prev =
      Function.update (Function.update
      (joined ((cells₁ ++ cells₂).map Prod.fst).getLast? list.prev) (cells₂.map Prod.fst).head?
      (some newNode)) (some newNode) (cells₁.map Prod.fst).getLast?) :
    list'.Keeps (cells₁ ++ (newNode, list.data newNode) :: cells₂) := by
  have hchain := h.chain
  rw [List.map_append] at hchain hnew
  have hins := chain_insert _ _ hchain hnew hnext (by simpa using hprev)
  refine ⟨by simpa using hins, fun c hc => ?_⟩
  rw [hdata]
  rcases List.mem_cons.mp (List.perm_middle.mem_iff.mp hc) with rfl | hc
  · rfl
  · exact h.data c hc

theorem insertAtBeginning_keeps (h : list.Keeps cells) (hnew : newNode ∉ cells.map Prod.fst)
    (data : Int) : (list.insertAtBeginning newNode data).Keeps ((newNode, data) :: cells) := by
  have hmade := createNode_keeps h hnew data
  have hdata : (list.createNode newNode data).data newNode = data := by simp [createNode]
  have hnext : (list.createNode newNode data).next newNode = none := by simp [createNode]
  have hprev : (list.createNode newNode data).prev newNode = none := by simp [createNode]
  unfold insertAtBeginning
  generalize list.createNode newNode data = made at hmade hdata hnext hprev
  have hhead := chain_head hmade.chain
  subst hdata
  cases cells with
  | nil =>
    simp only [show made.head = none from hhead]
    refine keeps_insert [] [] hmade hnew rfl ?_ ?_
    · simp [update_joined_none, update_joined_some, update_same hnext]
    · simp [update_joined_none, update_joined_some, update_same hprev]
  | cons c cells =>
    have hne : newNode ≠ c.1 := fun e => hnew (by simp [e])
    have hprev' : Function.update made.prev c.1 (some newNode) newNode = none := by
      simp [hne, hprev]
    simp only [show made.head = some c.1 from hhead]
    refine keeps_insert [] (c :: cells) hmade hnew rfl ?_ ?_
    · simp [update_joined_none, update_joined_some]
    · simp [update_joined_some, List.getLast?_cons_cons, update_same hprev']

theorem insertAtEnd_keeps (h : list.Keeps cells) (hnew : newNode ∉ cells.map Prod.fst)
    (data : Int) (hfuel : cells.length < fuel) :
    ∃ list', list.insertAtEnd fuel newNode data = some list' ∧
      list'.Keeps (cells ++ [(newNode, data)]) := by
  have hmade := createNode_keeps h hnew data
  have hdata : (list.createNode newNode data).data newNode = data := by simp [createNode]
  have hnext : (list.createNode newNode data).next newNode = none := by simp [createNode]
  have hprev : (list.createNode newNode data).prev newNode = none := by simp [createNode]
  unfold insertAtEnd
  generalize list.createNode newNode data = made at hmade hdata hnext hprev
  have hfirst := chain_head hmade.chain
  subst hdata
  rcases List.eq_nil_or_concat cells with rfl | ⟨l, last, rfl⟩
  · simp only [show made.head = none from hfirst]
    refine ⟨_, rfl, keeps_insert [] [] hmade hnew rfl ?_ ?_⟩
    · simp [update_joined_none, update_joined_some, update_same hnext]
    · simp [update_joined_none, update_joined_some, update_same hprev]
  · rw [List.concat_eq_append] at *
    have hne : newNode ≠ last.1 := fun e => hnew (by simp [e])
    have hnext' : Function.update made.next last.1 (some newNode) newNode = none := by
      simp [hne, hnext]
    obtain ⟨head, hhead⟩ : ∃ head, made.head = some head := by
      rw [hfirst]
      cases l <;> exact ⟨_, rfl⟩
    have hlast : ((l ++ [last]).map Prod.fst).getLast? = some last.1 := by simp
    simp only [hhead, moveToEnd_last hmade hfuel hhead, hlast]
    refine ⟨_, rfl, keeps_insert (l ++ [last]) [] (by simpa using hmade)
      (by simpa using hnew) rfl ?_ ?_⟩
    · rw [hlast]
      simp [update_joined_some, update_same hnext', hhead]
    · rw [hlast]
      simp [update_joined_none, update_joined_some]

theorem deleteHead_keeps {c : ν × Int} (h : list.Keeps (c :: cells)) :
    (list.deleteHead c.1).Keeps cells := by
  obtain ⟨hnext, hprev⟩ := chain_next [] (cells.map Prod.fst) h.chain
  refine ⟨chain_remove [] _ h.chain (fun p _ => ?_) fun p _ => ?_,
    fun d hd => h.data d (List.mem_cons_of_mem _ hd)⟩
  · rw [hprev]
    exact congrFun (update_joined_none _ _ _).symm p
  · cases cells with
    | nil =>
      rw [hprev, show list.next c.1 = none from hnext, update_joined_none]
      simp [deleteHead, show list.next c.1 = none from hnext]
    | cons d cells =>
      rw [hprev, show list.next c.1 = some d.1 from hnext, update_joined_some]
      simp [deleteHead, show list.next c.1 = some d.1 from hnext, List.getLast?_cons_cons]

theorem deleteInner_keeps {c : ν × Int} (h : list.Keeps (cells₁ ++ c :: cells₂))
    (hinner : cells₁ ≠ []) : (list.deleteInner c.1).Keeps (cells₁ ++ cells₂) := by
  obtain ⟨l, b, rfl⟩ := (List.eq_nil_or_concat cells₁).resolve_left hinner
  rw [List.concat_eq_append] at *
  have hchain := h.chain
  rw [List.map_append, List.map_cons] at hchain
  obtain ⟨hnext, hprev⟩ := chain_next _ _ hchain
  have hb : list.prev c.1 = some b.1 := by simpa using hprev
  have hne : c.1 ≠ b.1 := by
    have hnodup := hchain.nodup
    intro e
    simp [List.nodup_append, ← e] at hnodup
  have hkeep : Function.update list.next b.1 (list.next c.1) c.1 = list.next c.1 :=
    Function.update_of_ne hne _ _
  have hrem : Chain (list.deleteInner c.1).head ((l ++ [b] ++ cells₂).map Prod.fst).getLast?
      (list.deleteInner c.1).next (list.deleteInner c.1).prev
      ((l ++ [b]).map Prod.fst ++ cells₂.map Prod.fst) := by
    refine chain_remove _ _ hchain (fun p _ => ?_) fun p _ => ?_
    · rw [hb, update_joined_some]
      simp [deleteInner, hb]
    · simp only [deleteInner, hb, hkeep]
      cases cells₂ with
      | nil =>
        rw [show list.next c.1 = none from hnext, update_joined_none]
        simp
      | cons d cells₂ =>
        rw [show list.next c.1 = some d.1 from hnext, update_joined_some]
        simp
  refine ⟨by simpa using hrem, fun d hd => h.data d ?_⟩
  exact List.perm_middle.mem_iff.mpr (List.mem_cons_of_mem c hd)

theorem deleteNode_keeps (h : list.Keeps cells) (hfuel : cells.length < fuel) (value : Int) :
    ∃ list', list.deleteNode fuel value = some list' ∧
      list'.Keeps (cells.eraseP fun c => c.2 = value) ∧
      (value ∉ cells.map Prod.snd → list' = list) := by
  cases hhead : list.head with
  | none =>
    have hnil : (cells.map Prod.fst).head? = none := (chain_head h.chain).symm.trans hhead
    obtain rfl : cells = [] := by simpa using hnil
    exact ⟨list, by simp [deleteNode, hhead], h, fun _ => rfl⟩
  | some head =>
    by_cases hmem : ∃ c ∈ cells, c.2 = value
    · obtain ⟨c₀, hc₀, hv₀⟩ := hmem
      obtain ⟨c, cells₁, cells₂, hbefore, hc, rfl, herase⟩ :=
        List.exists_of_eraseP (p := fun c => c.2 = value) hc₀ (by simpa using hv₀)
      have hc : c.2 = value := of_decide_eq_true hc
      have hstop := search_stops cells₁ (c :: cells₂) h (by simpa using hbefore)
        (by simpa using hc) hfuel
      rw [hhead] at hstop
      rw [herase]
      refine ⟨if some c.1 = list.head then list.deleteHead c.1 else list.deleteInner c.1,
        by simp [deleteNode, hhead, hstop], ?_, fun habsent => absurd ?_ habsent⟩
      · have hfirst := chain_head h.chain
        cases cells₁ with
        | nil =>
          rw [if_pos (by simpa using hfirst.symm)]
          exact deleteHead_keeps h
        | cons b cells₁ =>
          have hne : c.1 ≠ b.1 := by
            have hnodup := h.chain.nodup
            intro e
            simp [← e] at hnodup
          rw [if_neg (by simpa [hfirst] using hne)]
          exact deleteInner_keeps h (by simp)
      · simp [← hc]
    · have habsent : ∀ c ∈ cells, c.2 ≠ value := fun c hc e => hmem ⟨c, hc, e⟩
      have hstop := search_stops cells [] (by simpa using h) habsent
        (fun _ hc => nomatch hc) (by simpa using hfuel)
      rw [hhead] at hstop
      refine ⟨list, by simp [deleteNode, hhead, hstop], ?_, fun _ => rfl⟩
      rwa [List.eraseP_of_forall_not (by simpa using habsent)]

theorem perform_keeps (h : list.Keeps cells) (hfuel : cells.length < fuel) (call : Call ν)
    (hfresh : call.Fresh cells) :
    ∃ list', call.perform fuel list = some list' ∧ list'.Keeps (call.onCells cells) := by
  cases call with
  | insertAtBeginning newNode data => exact ⟨_, rfl, insertAtBeginning_keeps h hfresh data⟩
  | insertAtEnd newNode data => exact insertAtEnd_keeps h hfresh data hfuel
  | deleteNode value =>
    obtain ⟨list', hdelete, hkeeps, -⟩ := deleteNode_keeps h hfuel value
    exact ⟨list', hdelete, hkeeps⟩

theorem run_keeps {calls : List (Call ν)} (h : list.Keeps cells)
    (hfuel : cells.length + calls.length < fuel) (hfresh : Fresh cells calls) :
    ∃ list' cells', list.run fuel calls = some list' ∧ list'.Keeps cells' ∧
      cells'.length ≤ cells.length + calls.length ∧
      cells'.map Prod.snd = calls.foldl Call.onValues (cells.map Prod.snd) := by
  induction calls generalizing list cells with
  | nil => exact ⟨list, cells, rfl, h, Nat.le_refl _, rfl⟩
  | cons call calls ih =>
    rw [List.length_cons] at hfuel
    have hlen := onCells_length call cells
    have hlt : cells.length < fuel := by omega
    obtain ⟨list₁, hcall, hkeeps⟩ := perform_keeps h hlt call hfresh.1
    obtain ⟨list', cells', hrun, hkeeps', hlen', hvalues⟩ := ih hkeeps (by omega) hfresh.2
    refine ⟨list', cells', by simp [run, hcall, hrun], hkeeps',
      by simp only [List.length_cons]; omega, ?_⟩
    rw [hvalues, onCells_values, List.foldl_cons]

theorem list_refines {calls : List (Call ν)} (hfuel : calls.length < fuel) (hfresh : Fresh [] calls)
    (data : ν → Int) (next prev : ν → Option ν) :
    ∃ list nodes, (empty data next prev).run fuel calls = some list ∧
      Chain list.head nodes.getLast? list.next list.prev nodes ∧
      nodes.map list.data = calls.foldl Call.onValues [] ∧
      (∃ forward backward, list.displayForward fuel = some forward ∧
        list.displayBackward fuel = some backward ∧
        forward.filterMap Printed.value = nodes.map list.data ∧
        backward.filterMap Printed.value = (forward.filterMap Printed.value).reverse) ∧
      ∀ value ∉ nodes.map list.data, list.deleteNode fuel value = some list := by
  obtain ⟨list, cells, hrun, hkeeps, hlen, hvalues⟩ :=
    run_keeps (empty_keeps data next prev) (by simpa using hfuel) hfresh
  have hfuel' : cells.length < fuel := by
    simp only [List.length_nil, Nat.zero_add] at hlen
    omega
  have hnodes : (cells.map Prod.fst).map list.data = cells.map Prod.snd := by
    rw [List.map_map]
    exact List.map_congr_left hkeeps.data
  obtain ⟨forward, hforward, hout⟩ := displayForward_values hkeeps hfuel'
  obtain ⟨backward, hbackward, hback⟩ := displayBackward_values hkeeps hfuel'
  refine ⟨list, cells.map Prod.fst, hrun, hkeeps.chain, hnodes.trans hvalues,
    ⟨forward, backward, hforward, hbackward, hout.trans hnodes.symm, by rw [hback, hout]⟩,
    fun value hvalue => ?_⟩
  obtain ⟨list', hdelete, -, hsame⟩ := deleteNode_keeps hkeeps hfuel' value
  rw [hdelete, hsame (hnodes ▸ hvalue)]

theorem list_refines_repeated : ∃ list nodes,
    (empty (fun _ : Nat => 0) (fun _ => none) fun _ => none).run 6
      [.insertAtEnd 0 5, .insertAtBeginning 1 7, .insertAtEnd 2 5, .deleteNode 5] = some list ∧
    Chain list.head nodes.getLast? list.next list.prev nodes ∧ nodes.map list.data = [7, 5] := by
  have hfuel : ([.insertAtEnd 0 5, .insertAtBeginning 1 7, .insertAtEnd 2 5, .deleteNode 5] :
      List (Call Nat)).length < 6 := by decide
  obtain ⟨list, nodes, hrun, hchain, hvalues, -⟩ := list_refines hfuel
    (by simp [Fresh, Call.Fresh, Call.onCells]) (fun _ => 0) (fun _ => none) fun _ => none
  exact ⟨list, nodes, hrun, hchain, hvalues⟩

end

end LinkedList

end OperatingSystems.Homework
