import OperatingSystems.Concurrency.System
import OperatingSystems.Library.Service

namespace OperatingSystems.Concurrency
open Calling

-- what the channels are for: bounded queues on which every operation happens at once

inductive Offer (χ α : Type)
  | send (channel : χ) (data : α)
  | receive (channel : χ)
deriving DecidableEq

structure Result (α : Type) where
  status : Status
  index : Option Nat
  value : Option α
deriving DecidableEq

-- `waited` when the operation has found its queue full or empty, and still open
inductive Phase (χ α : Type)
  | idle
  | asking (mode : Mode) (waited : Bool) (offers : List (Offer χ α))
  | closing (channel : χ)
  | answered (result : Result α)

@[ext]
structure Queues (τ χ α : Type) where
  queue : χ → List α
  closed : χ → Bool
  phase : τ → Phase χ α

inductive Commit (τ : Type)
  | take (t : τ) (i : Nat)
  | deny (t : τ) (i : Nat)
  | refuse (t : τ)
  | wait (t : τ)
  | close (t : τ)

variable {τ χ α : Type}

def Offer.channel : Offer χ α → χ
  | .send c _ => c
  | .receive c => c

def Dir.offer (c : χ) (v : α) : Dir → Offer χ α
  | .send => .send c v
  | .recv => .receive c

def Entry.offer (e : Entry χ α) : Offer χ α := e.dir.offer e.channel e.data

@[simp] theorem offer_channel (c : χ) (v : α) (d : Dir) : (d.offer c v).channel = c := by
  cases d <;> rfl

def Mode.index (m : Mode) (i : Nat) : Option Nat := if m = .select then some i else none

def Call.phase : Call χ α → Phase χ α
  | .send c v => .asking .blocking false [.send c v]
  | .receive c => .asking .blocking false [.receive c]
  | .nonBlockingSend c v => .asking .nonblocking false [.send c v]
  | .nonBlockingReceive c => .asking .nonblocking false [.receive c]
  | .select es =>
    if es = [] then .answered ⟨.genericError, none, none⟩
    else .asking .select false (es.map Entry.offer)
  | .close c => .closing c

variable [DecidableEq χ]

def Offer.take (size : χ → Nat) (queue : χ → List α) : Offer χ α → Option (α × (χ → List α))
  | .send c v =>
    if (queue c).length < size c then some (v, Function.update queue c (queue c ++ [v])) else none
  | .receive c =>
    match queue c with
    | [] => none
    | v :: rest => some (v, Function.update queue c rest)

variable [DecidableEq τ]

@[simps]
def Queues.enter (q : Queues τ χ α) (t : τ) (p : Phase χ α) : Queues τ χ α :=
  { q with phase := Function.update q.phase t p }

@[simps!]
def Queues.answer (q : Queues τ χ α) (t : τ) (st : Status) (index : Option Nat)
    (value : Option α) : Queues τ χ α := q.enter t (.answered ⟨st, index, value⟩)

def Queues.holdsOff (size : χ → Nat) (q : Queues τ χ α) (f : Offer χ α) : Prop :=
  q.closed f.channel = false ∧ (f.take size q.queue).isNone

instance (size : χ → Nat) (q : Queues τ χ α) (f : Offer χ α) : Decidable (q.holdsOff size f) :=
  inferInstanceAs (Decidable (_ ∧ _))

inductive Committed (size : χ → Nat) (q : Queues τ χ α) : Commit τ → Queues τ χ α → Prop
  | take (t : τ) (i : Nat) {m : Mode} {waited : Bool} {offers : List (Offer χ α)} {f : Offer χ α}
      {v : α} {queue : χ → List α} (phase : q.phase t = .asking m waited offers)
      (offer : offers[i]? = some f) (isOpen : q.closed f.channel = false ∨ waited = true)
      (taken : f.take size q.queue = some (v, queue)) :
      Committed size q (.take t i) ({ q with queue := queue }.answer t .success (m.index i) (some v))
  | deny (t : τ) (i : Nat) {m : Mode} {waited : Bool} {offers : List (Offer χ α)} {f : Offer χ α}
      (phase : q.phase t = .asking m waited offers) (offer : offers[i]? = some f)
      (closed : q.closed f.channel = true) (stuck : waited = true → f.take size q.queue = none) :
      Committed size q (.deny t i) (q.answer t .closedError (m.index i) none)
  | refuse (t : τ) {waited : Bool} {offers : List (Offer χ α)}
      (phase : q.phase t = .asking .nonblocking waited offers)
      (held : ∀ f ∈ offers, q.holdsOff size f) :
      Committed size q (.refuse t) (q.answer t .channelFull none none)
  | wait (t : τ) {offers : List (Offer χ α)} (phase : q.phase t = .asking .blocking false offers)
      (held : ∀ f ∈ offers, q.holdsOff size f) :
      Committed size q (.wait t) (q.enter t (.asking .blocking true offers))
  | closeAgain (t : τ) {c : χ} (phase : q.phase t = .closing c) (closed : q.closed c = true) :
      Committed size q (.close t) (q.answer t .closedError none none)
  | close (t : τ) {c : χ} (phase : q.phase t = .closing c) (isOpen : q.closed c = false) :
      Committed size q (.close t)
        ({ q with closed := Function.update q.closed c true }.answer t .success none none)

def Queues.run (size : χ → Nat) (q : Queues τ χ α) : Commit τ → Option (Queues τ χ α)
  | .take t i =>
    match q.phase t with
    | .asking m waited offers =>
      match offers[i]? with
      | some f =>
        if q.closed f.channel = true ∧ waited = false then none
        else (f.take size q.queue).map fun r =>
          { q with queue := r.2 }.answer t .success (m.index i) (some r.1)
      | none => none
    | _ => none
  | .deny t i =>
    match q.phase t with
    | .asking m waited offers =>
      match offers[i]? with
      | some f =>
        if q.closed f.channel = true ∧ (waited = true → (f.take size q.queue).isNone) then
          some (q.answer t .closedError (m.index i) none)
        else none
      | none => none
    | _ => none
  | .refuse t =>
    match q.phase t with
    | .asking .nonblocking _ offers =>
      if ∀ f ∈ offers, q.holdsOff size f then some (q.answer t .channelFull none none) else none
    | _ => none
  | .wait t =>
    match q.phase t with
    | .asking .blocking false offers =>
      if ∀ f ∈ offers, q.holdsOff size f then some (q.enter t (.asking .blocking true offers))
      else none
    | _ => none
  | .close t =>
    match q.phase t with
    | .closing c =>
      if q.closed c = true then some (q.answer t .closedError none none)
      else some ({ q with closed := Function.update q.closed c true }.answer t .success none none)
    | _ => none

theorem committed_iff {size : χ → Nat} {q q' : Queues τ χ α} {k : Commit τ} :
    q.run size k = some q' ↔ Committed size q k q' := by
  constructor
  · intro h
    cases k with
    | take t i =>
      simp only [Queues.run] at h
      split at h
      · rename_i hphase
        split at h
        · rename_i hoffer
          split at h
          · cases h
          · rename_i hguard
            obtain ⟨⟨v, queue⟩, htaken, he⟩ := Option.map_eq_some_iff.mp h
            cases he
            refine .take t i hphase hoffer ?_ htaken
            rcases not_and_or.mp hguard with hno | hno
            · exact .inl (by simpa using hno)
            · exact .inr (by simpa using hno)
        · cases h
      · cases h
    | deny t i =>
      simp only [Queues.run] at h
      split at h
      · rename_i hphase
        split at h
        · rename_i hoffer
          split at h
          · rename_i hguard
            cases h
            exact .deny t i hphase hoffer hguard.1 fun hw => by simpa using hguard.2 hw
          · cases h
        · cases h
      · cases h
    | refuse t =>
      simp only [Queues.run] at h
      split at h
      · rename_i hphase
        split at h
        · rename_i hheld
          cases h
          exact .refuse t hphase hheld
        · cases h
      · cases h
    | wait t =>
      simp only [Queues.run] at h
      split at h
      · rename_i hphase
        split at h
        · rename_i hheld
          cases h
          exact .wait t hphase hheld
        · cases h
      · cases h
    | close t =>
      simp only [Queues.run] at h
      split at h
      · rename_i hphase
        split at h
        · rename_i hclosed
          cases h
          exact .closeAgain t hphase hclosed
        · rename_i hopen
          cases h
          exact .close t hphase (by simpa using hopen)
      · cases h
  · intro h
    cases h with
    | take t i phase offer isOpen taken =>
      simp only [Queues.run, phase, offer, taken, Option.map_some]
      refine if_neg fun hguard => ?_
      rcases isOpen with hopen | hwaited
      · simp [hguard.1] at hopen
      · simp [hguard.2] at hwaited
    | deny t i phase offer closed stuck =>
      simp only [Queues.run, phase, offer]
      exact if_pos ⟨closed, fun hw => by simp [stuck hw]⟩
    | refuse t phase held =>
      simp only [Queues.run, phase]
      exact if_pos held
    | wait t phase held =>
      simp only [Queues.run, phase]
      exact if_pos held
    | closeAgain t phase closed =>
      simp only [Queues.run, phase]
      exact if_pos closed
    | close t phase isOpen =>
      simp only [Queues.run, phase]
      exact if_neg (by simp [isOpen])

-- the waits may be left out: an operation that never found its queue stuck may still be asked
def Commit.due : Commit τ → Prop
  | .wait _ => False
  | _ => True

def queues (size : χ → Nat) : Service (Queues τ χ α) τ (Call χ α) (Result α) (Commit τ) where
  init q := (∀ c, q.queue c = []) ∧ (∀ c, q.closed c = false) ∧ ∀ t, q.phase t = .idle
  call q t k :=
    match q.phase t with
    | .idle => some (q.enter t k.phase)
    | _ => none
  run := Queues.run size
  ret q t :=
    match q.phase t with
    | .answered r => some (r, q.enter t .idle)
    | _ => none

end OperatingSystems.Concurrency
