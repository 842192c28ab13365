import Mathlib.Data.List.Basic
import Mathlib.Tactic.Common

namespace OperatingSystems.BoundedQueue

structure Queue (α : Type) (bound : Nat) where
  items : List α
  fits : items.length ≤ bound

inductive Request (α : Type) where
  | put (v : α)
  | take

inductive Answer (α : Type) where
  | accepted
  | taken (v : α)
  | refused

variable {α : Type} {bound : Nat}

namespace Queue

def empty : Queue α bound := ⟨[], Nat.zero_le bound⟩

def put (q : Queue α bound) (v : α) : Option (Queue α bound) :=
  if h : q.items.length < bound then some ⟨q.items ++ [v], List.length_append ▸ h⟩ else none

def take : Queue α bound → Option (α × Queue α bound)
  | ⟨[], _⟩ => none
  | ⟨v :: rest, h⟩ => some (v, ⟨rest, Nat.le_of_succ_le h⟩)

def serve (q : Queue α bound) : Request α → Answer α × Queue α bound
  | .put v => ((q.put v).elim .refused fun _ => .accepted, (q.put v).getD q)
  | .take => (q.take.elim .refused fun r => .taken r.1, q.take.elim q Prod.snd)

def run (q : Queue α bound) : List (Request α) → List (Answer α) × Queue α bound
  | [] => ([], q)
  | r :: rest =>
    let last := (q.serve r).2.run rest
    ((q.serve r).1 :: last.1, last.2)

theorem put_full {q : Queue α bound} (h : q.items.length = bound) (v : α) : q.put v = none :=
  dif_neg (by omega)

theorem put_room {q : Queue α bound} (h : q.items.length < bound) (v : α) :
    ∃ q', q.put v = some q' ∧ q'.items = q.items ++ [v] := ⟨_, dif_pos h, rfl⟩

theorem take_empty {q : Queue α bound} (h : q.items = []) : q.take = none := by
  obtain ⟨items, fits⟩ := q
  cases h
  rfl

theorem take_first {q : Queue α bound} {v : α} {rest : List α} (h : q.items = v :: rest) :
    ∃ q', q.take = some (v, q') ∧ q'.items = rest := by
  obtain ⟨items, fits⟩ := q
  cases h
  exact ⟨_, rfl, rfl⟩

end Queue

def entered : List (Request α) → List (Answer α) → List α
  | .put v :: requests, .accepted :: answers => v :: entered requests answers
  | _ :: requests, _ :: answers => entered requests answers
  | _, _ => []

def departed : List (Request α) → List (Answer α) → List α
  | .take :: requests, .taken v :: answers => v :: departed requests answers
  | _ :: requests, _ :: answers => departed requests answers
  | _, _ => []

theorem serve_fifo (q : Queue α bound) (r : Request α) :
    q.items ++ entered [r] [(q.serve r).1] =
      departed [r] [(q.serve r).1] ++ (q.serve r).2.items := by
  cases r with
  | put v =>
    rcases Nat.lt_or_eq_of_le q.fits with h | h
    · obtain ⟨q', hput, hitems⟩ := Queue.put_room h v
      simp [Queue.serve, hput, hitems, entered, departed]
    · simp [Queue.serve, Queue.put_full h, entered, departed]
  | take =>
    cases h : q.items with
    | nil => simp [Queue.serve, Queue.take_empty h, h, entered, departed]
    | cons v rest =>
      obtain ⟨q', htake, hitems⟩ := Queue.take_first h
      simp [Queue.serve, htake, hitems, entered, departed]

section
variable (r : Request α) (requests : List (Request α)) (a : Answer α) (answers : List (Answer α))

theorem entered_cons :
    entered (r :: requests) (a :: answers) = entered [r] [a] ++ entered requests answers := by
  cases r <;> cases a <;> rfl

theorem departed_cons :
    departed (r :: requests) (a :: answers) = departed [r] [a] ++ departed requests answers := by
  cases r <;> cases a <;> rfl

end

theorem run_fifo (q : Queue α bound) (requests : List (Request α)) :
    q.items ++ entered requests (q.run requests).1 =
      departed requests (q.run requests).1 ++ (q.run requests).2.items := by
  induction requests generalizing q with
  | nil => simp [Queue.run, entered, departed]
  | cons r requests ih =>
    rw [Queue.run, entered_cons, departed_cons, ← List.append_assoc, serve_fifo,
      List.append_assoc, ih, List.append_assoc]

section
variable {σ ι ο : Type}

-- a machine that is called again and again, `none` where what it does is undefined
def calls (step : σ → ι → Option (ο × σ)) : σ → List ι → Option (List ο × σ)
  | s, [] => some ([], s)
  | s, i :: rest => do
    let (o, s) ← step s i
    let (os, s) ← calls step s rest
    return (o :: os, s)

theorem calls_serve {step : σ → ι → Option (ο × σ)} {request : ι → Request α}
    {reply : ι → Answer α → ο} {R : σ → Queue α bound → Prop}
    (hstep : ∀ s q i, R s q → ∃ s', step s i = some (reply i (q.serve (request i)).1, s') ∧
      R s' (q.serve (request i)).2)
    {s : σ} {q : Queue α bound} (h : R s q) (is : List ι) :
    ∃ s', calls step s is = some (List.zipWith reply is (q.run (is.map request)).1, s') ∧
      R s' (q.run (is.map request)).2 := by
  induction is generalizing s q with
  | nil => exact ⟨s, rfl, h⟩
  | cons i is ih =>
    obtain ⟨t, ht, hR⟩ := hstep s q i h
    obtain ⟨s', hs', hlast⟩ := ih hR
    exact ⟨s', by simp [calls, ht, hs', Queue.run], hlast⟩

end

end OperatingSystems.BoundedQueue
