import Mathlib.Algebra.Group.Nat.Defs
import OperatingSystems.Concurrency.Buffer
import OperatingSystems.Library.BoundedQueue

namespace OperatingSystems.Concurrency
open BoundedQueue

variable {α : Type}

def sizeT (n : Nat) : Nat := n % 2 ^ 64

inductive BufferStatus where
  | success
  | error
deriving DecidableEq

-- an access to `data` at an index that is not below the capacity is undefined
def Buffer.fetch (b : Buffer α) (i : Nat) : Option α :=
  if i < b.capacity then some (b.data i) else none

def Buffer.store (b : Buffer α) (i : Nat) (v : α) : Option (Buffer α) :=
  if i < b.capacity then some { b with data := Function.update b.data i v } else none

-- `word` is what the type of the counters makes of a sum: `sizeT`, or `id` for numbers without bound
def bufferAdd (word : Nat → Nat) (b : Buffer α) (data : α) : Option (BufferStatus × Buffer α) :=
  if b.capacity ≤ b.size then some (.error, b)
  else do
    let pos := word (b.next + b.size)
    let pos := if b.capacity ≤ pos then pos - b.capacity else pos
    let b ← b.store pos data
    return (.success, { b with size := word (b.size + 1) })

-- `out` is what the cell behind the second argument holds
def bufferRemove (word : Nat → Nat) (b : Buffer α) (out : α) :
    Option (BufferStatus × α × Buffer α) :=
  if 0 < b.size then do
    let out ← b.fetch b.next
    let next := word (b.next + 1)
    let next := if b.capacity ≤ next then next - b.capacity else next
    return (.success, out, { b with size := b.size - 1, next := next })
  else some (.error, out, b)

inductive BufferCall (α : Type) where
  | add (data : α)
  | remove (out : α)

inductive BufferReply (α : Type) where
  | added (status : BufferStatus)
  | removed (status : BufferStatus) (out : α)
deriving DecidableEq

def bufferCall (word : Nat → Nat) (b : Buffer α) : BufferCall α → Option (BufferReply α × Buffer α)
  | .add data => (bufferAdd word b data).map fun r => (.added r.1, r.2)
  | .remove out => (bufferRemove word b out).map fun r => (.removed r.1 r.2.1, r.2.2)

namespace BufferCall

def request : BufferCall α → Request α
  | .add data => .put data
  | .remove _ => .take

def reply : BufferCall α → Answer α → BufferReply α
  | .add _, .accepted => .added .success
  | .add _, _ => .added .error
  | .remove _, .taken v => .removed .success v
  | .remove out, _ => .removed .error out

end BufferCall

section
variable {word : Nat → Nat} {b : Buffer α}

theorem Buffer.store_slot (h : b.Valid) (i : Nat) (v : α) :
    b.store (b.slot i) v = some { b with data := Function.update b.data (b.slot i) v } :=
  if_pos (Nat.mod_lt _ (Nat.zero_lt_of_lt h.next))

theorem bufferAdd_eq (hword : ∀ n < 2 * b.capacity, word n = n) (h : b.Valid) (data : α) :
    bufferAdd word b data =
      some ((b.add data).elim (.error, b) fun b' => (.success, b')) := by
  have hn := h.next
  unfold bufferAdd Buffer.add
  split
  · rfl
  · have hs := h.size
    rw [hword (b.next + b.size) (by omega)]
    dsimp only
    rw [Buffer.wrapped h hs, Buffer.store_slot h]
    refine congrArg (fun size => some (BufferStatus.success, Buffer.mk size _ _ _)) ?_
    exact hword (b.size + 1) (by omega)

theorem bufferRemove_eq (hword : ∀ n < 2 * b.capacity, word n = n) (h : b.Valid) (out : α) :
    bufferRemove word b out =
      some (b.remove.elim (.error, out, b) fun r => (.success, r)) := by
  have hn := h.next
  unfold bufferRemove Buffer.remove
  split
  · rw [hword (b.next + 1) (by omega), Buffer.fetch, if_pos hn]
    rfl
  · rfl

structure Represents {bound : Nat} (b : Buffer α) (q : Queue α bound) : Prop where
  valid : b.Valid
  bound : b.capacity = bound
  items : b.contents = q.items

theorem bufferAdd_serves {bound : Nat} {q : Queue α bound}
    (hword : ∀ n < 2 * bound, word n = n) (h : Represents b q) (data : α) :
    ∃ b', bufferCall word b (.add data) =
        some ((BufferCall.add data).reply (q.serve (.put data)).1, b') ∧
      Represents b' (q.serve (.put data)).2 := by
  obtain ⟨hv, rfl, hitems⟩ := h
  have hlen : q.items.length = b.size := hitems ▸ Buffer.length_contents b
  rw [bufferCall, bufferAdd_eq hword hv]
  cases ha : b.add data with
  | none =>
    have hfull : q.items.length = b.capacity :=
      hlen.trans (Nat.le_antisymm hv.size (Buffer.add_eq_none.mp ha))
    simp only [Queue.serve, Queue.put_full hfull]
    exact ⟨b, rfl, hv, rfl, hitems⟩
  | some b' =>
    obtain ⟨hv', hc, -, hcap, hroom⟩ := Buffer.add_spec hv ha
    obtain ⟨q', hput, hq'⟩ := Queue.put_room (hlen ▸ hroom) data
    simp only [Queue.serve, hput]
    exact ⟨b', rfl, hv', hcap, hc.trans (hitems ▸ hq'.symm)⟩

theorem bufferRemove_serves {bound : Nat} {q : Queue α bound}
    (hword : ∀ n < 2 * bound, word n = n) (h : Represents b q) (out : α) :
    ∃ b', bufferCall word b (.remove out) =
        some ((BufferCall.remove out).reply (q.serve .take).1, b') ∧
      Represents b' (q.serve .take).2 := by
  obtain ⟨hv, rfl, hitems⟩ := h
  rw [bufferCall, bufferRemove_eq hword hv]
  cases hr : b.remove with
  | none =>
    have hempty : q.items = [] := by
      rw [← hitems, ← List.length_eq_zero_iff, Buffer.length_contents]
      exact Buffer.remove_eq_none.mp hr
    simp only [Queue.serve, Queue.take_empty hempty]
    exact ⟨b, rfl, hv, rfl, hitems⟩
  | some r =>
    obtain ⟨v, b'⟩ := r
    obtain ⟨hv', hc, -, hcap⟩ := Buffer.remove_spec hv hr
    obtain ⟨q', htake, hq'⟩ := Queue.take_first (hitems.symm.trans hc)
    simp only [Queue.serve, htake]
    exact ⟨b', rfl, hv', hcap, hq'.symm⟩

theorem bufferCall_serves {bound : Nat} {q : Queue α bound} (hword : ∀ n < 2 * bound, word n = n)
    (h : Represents b q) (c : BufferCall α) :
    ∃ b', bufferCall word b c = some (c.reply (q.serve c.request).1, b') ∧
      Represents b' (q.serve c.request).2 := by
  cases c with
  | add data => exact bufferAdd_serves hword h data
  | remove out => exact bufferRemove_serves hword h out

structure FailsAtBounds (word : Nat → Nat) (b : Buffer α) : Prop where
  add (data : α) : ∃ status b', bufferAdd word b data = some (status, b') ∧
    (status = .error ↔ b.size = b.capacity) ∧ (status = .error → b' = b)
  remove (out : α) : ∃ status out' b', bufferRemove word b out = some (status, out', b') ∧
    (status = .error ↔ b.size = 0) ∧ (status = .error → out' = out ∧ b' = b)

theorem failsAtBounds (hword : ∀ n < 2 * b.capacity, word n = n) (h : b.Valid) :
    FailsAtBounds word b := by
  refine ⟨fun data => ?_, fun out => ?_⟩
  · rw [bufferAdd_eq hword h]
    cases ha : b.add data with
    | none =>
      have hfull := Nat.le_antisymm h.size (Buffer.add_eq_none.mp ha)
      exact ⟨_, _, rfl, by simp [hfull], fun _ => rfl⟩
    | some b' =>
      have hroom := (Buffer.add_counts ha).2.2
      exact ⟨_, _, rfl, by simp [Nat.ne_of_lt hroom], fun he => by cases he⟩
  · rw [bufferRemove_eq hword h]
    cases hr : b.remove with
    | none =>
      have hempty := Buffer.remove_eq_none.mp hr
      exact ⟨_, _, _, rfl, by simp [hempty], fun _ => ⟨rfl, rfl⟩⟩
    | some r =>
      obtain ⟨v, b'⟩ := r
      have hsize := (Buffer.remove_counts hr).1
      exact ⟨_, _, _, rfl, by simp [hsize], fun he => by cases he⟩

end

def added : List (BufferCall α) → List (BufferReply α) → List α
  | .add data :: calls, .added .success :: replies => data :: added calls replies
  | _ :: calls, _ :: replies => added calls replies
  | _, _ => []

def removed : List (BufferReply α) → List α
  | .removed .success out :: replies => out :: removed replies
  | _ :: replies => removed replies
  | [] => []

section
variable (calls : List (BufferCall α)) (answers : List (Answer α))

theorem added_entered :
    added calls (List.zipWith BufferCall.reply calls answers) =
      entered (calls.map BufferCall.request) answers := by
  induction calls generalizing answers with
  | nil => rfl
  | cons c calls ih =>
    cases answers with
    | nil => cases c <;> rfl
    | cons a answers =>
      cases c <;> cases a <;> simp [BufferCall.request, BufferCall.reply, added, entered, ih]

theorem removed_departed :
    removed (List.zipWith BufferCall.reply calls answers) =
      departed (calls.map BufferCall.request) answers := by
  induction calls generalizing answers with
  | nil => rfl
  | cons c calls ih =>
    cases answers with
    | nil => cases c <;> rfl
    | cons a answers =>
      cases c <;> cases a <;> simp [BufferCall.request, BufferCall.reply, removed, departed, ih]

end

structure ServedAsQueue (word : Nat → Nat) (capacity : Nat) (calls : List (BufferCall α))
    (replies : List (BufferReply α)) (b : Buffer α) : Prop where
  next : b.next < capacity
  size : b.size ≤ capacity
  bound : b.capacity = capacity
  contents : b.contents =
    ((Queue.empty : Queue α capacity).run (calls.map BufferCall.request)).2.items
  answers : replies = List.zipWith BufferCall.reply calls
    ((Queue.empty : Queue α capacity).run (calls.map BufferCall.request)).1
  fifo : added calls replies = removed replies ++ b.contents
  fails : FailsAtBounds word b

theorem calls_served {word : Nat → Nat} {capacity : Nat} (h : 0 < capacity)
    (hword : ∀ n < 2 * capacity, word n = n) (garbage : Nat → α) (calls : List (BufferCall α)) :
    ∃ replies b, BoundedQueue.calls (bufferCall word) (Buffer.create capacity garbage) calls =
      some (replies, b) ∧ ServedAsQueue word capacity calls replies b := by
  have hfresh : Represents (Buffer.create capacity garbage) (Queue.empty : Queue α capacity) :=
    ⟨Buffer.create_valid h garbage, rfl, rfl⟩
  obtain ⟨b, hcalls, hv, hcap, hitems⟩ := calls_serve
    (fun b q c hR => bufferCall_serves hword hR c) hfresh calls
  refine ⟨_, b, hcalls, hcap ▸ hv.next, hcap ▸ hv.size, hcap, hitems, rfl, ?_, ?_⟩
  · rw [added_entered, removed_departed, hitems]
    exact run_fifo Queue.empty (calls.map BufferCall.request)
  · exact failsAtBounds (hcap ▸ hword) hv

-- with a capacity above 2^63 there is no array of that many pointers
theorem ring_buffer {capacity : Nat} (h : 0 < capacity) (garbage : Nat → α)
    (calls : List (BufferCall α)) :
    (∃ replies b, BoundedQueue.calls (bufferCall id) (Buffer.create capacity garbage) calls =
        some (replies, b) ∧ ServedAsQueue id capacity calls replies b) ∧
      (capacity ≤ 2 ^ 63 →
        ∃ replies b, BoundedQueue.calls (bufferCall sizeT) (Buffer.create capacity garbage) calls =
          some (replies, b) ∧ ServedAsQueue sizeT capacity calls replies b) := by
  refine ⟨calls_served h (fun _ _ => rfl) garbage calls, fun hcap => ?_⟩
  exact calls_served h (fun n hn => Nat.mod_eq_of_lt (by omega)) garbage calls

theorem ring_buffer_one : ∃ replies b,
    BoundedQueue.calls (bufferCall sizeT) (Buffer.create 1 fun _ => 0)
      [.add 5, .add 6, .remove 0, .remove 9, .add 7] = some (replies, b) ∧
    ServedAsQueue sizeT 1 [.add 5, .add 6, .remove 0, .remove 9, .add 7] replies b :=
  (ring_buffer Nat.one_pos (fun _ => 0) _).2 (by decide)

example : (BoundedQueue.calls (bufferCall sizeT) (Buffer.create 1 fun _ => 0)
      [.add 5, .add 6, .remove 0, .remove 9, .add 7]).map (fun r => (r.1, r.2.next)) =
    some ([.added .success, .added .error, .removed .success 5, .removed .error 9,
      .added .success], 0) := by decide

end OperatingSystems.Concurrency
