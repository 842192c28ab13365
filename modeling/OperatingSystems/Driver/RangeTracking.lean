import Mathlib.Data.List.Chain
import OperatingSystems.Driver.RangeSet

namespace OperatingSystems.Driver
open SortedMap

namespace RangeSet
variable {ν π : Type}

-- what the pointers between two neighbours say; `none` stands for the end of the list
def Joined (cut : Prop) (s : RangeSet ν π) : Option π → Option π → Prop
  | none, none => True
  | some p, none => s.next p = none
  | none, some q => s.prev q = none
  | some p, some q => (s.next p = some q ∧ s.prev q = some p ∧ s.hi p < s.lo q) ∨
    (cut ∧ s.next p = none ∧ s.prev q = none)

def left (before : List π) : List (Option π) := none :: before.map some

def right (behind : List π) : List (Option π) := behind.map some ++ [none]

theorem left_last (before : List π) : (left before).getLast? = some before.getLast? := by
  rw [left, List.getLast?_cons, List.getLast?_map]
  cases before.getLast? <;> rfl

theorem right_head (behind : List π) : (right behind).head? = some behind.head? := by
  cases behind <;> rfl

theorem chain_split {R : Option π → Option π → Prop} (before behind : List π) :
    (left (before ++ behind) ++ [none]).IsChain R ↔
      (left before).IsChain R ∧ (right behind).IsChain R ∧ R before.getLast? behind.head? := by
  have hends : left (before ++ behind) ++ [none] = left before ++ right behind := by
    simp [left, right]
  rw [hends, List.isChain_append, left_last, right_head]
  simp

theorem right_cons {R : Option π → Option π → Prop} (p : π) (behind : List π) :
    (right (p :: behind)).IsChain R ↔ R (some p) behind.head? ∧ (right behind).IsChain R := by
  have hcons : right (p :: behind) = some p :: right behind := by simp [right]
  rw [hcons, List.isChain_cons, right_head]
  simp

section
variable {R S : Option π → Option π → Prop}

theorem chain_left {before : List π} (h : (left before).IsChain R) (hd : before.Nodup)
    (hs : ∀ x y, (∀ p, x = some p → p ∈ before ∧ before.getLast? ≠ some p) →
      (∀ q, y = some q → q ∈ before) → R x y → S x y) : (left before).IsChain S := by
  rcases before.eq_nil_or_concat with rfl | ⟨rest, last, rfl⟩
  · exact List.isChain_singleton _
  · rw [List.concat_eq_append] at *
    have hends : left (rest ++ [last]) = left rest ++ [some last] := by simp [left]
    have hne : ∀ p ∈ rest, p ≠ last := fun p hp =>
      (List.nodup_append.mp hd).2.2 p hp last (List.mem_singleton_self last)
    have hlast (p : π) (hp : p ∈ rest) : p ∈ rest ++ [last] ∧ (rest ++ [last]).getLast? ≠ some p := by
      simp [hp, (hne p hp).symm]
    rw [hends, List.isChain_append] at h ⊢
    refine ⟨h.1.imp_of_mem_imp fun x y hx hy hr => hs x y ?_ ?_ hr, List.isChain_singleton _, ?_⟩
    · rintro p rfl
      exact hlast p (by simpa [left] using hx)
    · rintro q rfl
      exact List.mem_append_left _ (by simpa [left] using hy)
    · intro x hx y hy
      refine hs x y ?_ ?_ (h.2.2 x hx y hy)
      · rintro p rfl
        rw [left_last] at hx
        exact hlast p (List.mem_of_getLast? (by simpa using hx))
      · rintro q rfl
        simp_all

theorem chain_right {behind : List π} (h : (right behind).IsChain R) (hd : behind.Nodup)
    (hs : ∀ x y, (∀ p, x = some p → p ∈ behind) →
      (∀ q, y = some q → q ∈ behind ∧ behind.head? ≠ some q) → R x y → S x y) :
    (right behind).IsChain S := by
  cases behind with
  | nil => exact List.isChain_singleton _
  | cons first rest =>
    refine h.imp_of_mem_tail_imp fun x y hx hy hr => hs x y ?_ ?_ hr
    · rintro p rfl
      simpa [right] using hx
    · rintro q rfl
      have hq : q ∈ rest := by simpa [right] using hy
      have hne : first ≠ q := fun h => (List.nodup_cons.mp hd).1 (h ▸ hq)
      simp [hq, hne]

end

theorem Joined.congr {cut : Prop} {s s' : RangeSet ν π} {x y : Option π} (h : s.Joined cut x y)
    (hx : ∀ p, x = some p → s'.next p = s.next p ∧ s'.hi p = s.hi p)
    (hy : ∀ q, y = some q → s'.prev q = s.prev q ∧ s'.lo q = s.lo q) : s'.Joined cut x y := by
  cases x with
  | none =>
    cases y with
    | none => trivial
    | some q => exact (hy q rfl).1.trans h
  | some p =>
    cases y with
    | none => exact (hx p rfl).1.trans h
    | some q =>
      simp only [Joined, hx p rfl, hy q rfl]
      exact h

def entry (s : RangeSet ν π) (p : π) : Int × Option π := ((s.lo p : Int), some p)

-- the live ranges by address: all of them in the tree, the pointers between neighbours as `Joined`
structure Tracked [DecidableEq ν] [Fintype ν] (cut : Prop) (s : RangeSet ν π) (l : List π) :
    Prop where
  tree : Stores s.loTree (l.map s.entry)
  sorted : l.Pairwise fun p q => s.lo p < s.lo q
  live : ∀ p, s.live p = true ↔ p ∈ l
  extent : ∀ p ∈ l, s.lo p ≤ s.hi p ∧ s.hi p < 2 ^ 63
  joined : (left l ++ [none]).IsChain (s.Joined cut)
  head : ¬ cut → s.list = l.head?

def Grown (s s' : RangeSet ν π) (b : Block) : Prop := ∀ q, s'.live q = true →
  (s'.lo q = b.lo ∧ s'.hi q = b.hi) ∨ (s.live q = true ∧ s'.lo q = s.lo q ∧ s'.hi q = s.hi q)

def Shrunk (s s' : RangeSet ν π) (a : Int) : Prop := ∀ q, s'.live q = true →
  s.live q = true ∧ s'.lo q = s.lo q ∧ s'.hi q = s.hi q ∧ (s.lo q : Int) ≠ a

theorem split_at {lo : π → Nat} {l : List π} (h : l.Pairwise fun p q => lo p < lo q) (a : Nat) :
    ∃ before behind, l = before ++ behind ∧ (∀ p ∈ before, lo p ≤ a) ∧ ∀ q ∈ behind, a < lo q := by
  induction l with
  | nil => exact ⟨[], [], rfl, by simp, by simp⟩
  | cons p rest ih =>
    obtain ⟨hp, hrest⟩ := List.pairwise_cons.mp h
    by_cases ha : lo p ≤ a
    · obtain ⟨before, behind, rfl, hbefore, hbehind⟩ := ih hrest
      exact ⟨p :: before, behind, rfl, by simpa [ha] using hbefore, hbehind⟩
    · refine ⟨[], p :: rest, rfl, by simp, fun q hq => ?_⟩
      rcases List.mem_cons.mp hq with rfl | hq
      · omega
      · have := hp q hq
        omega

theorem nextOf_live {s : RangeSet ν π} {x : Option π} (h : ∀ q, x = some q → s.live q = true) :
    s.nextOf x = some (x.bind s.next) := by
  cases x with
  | none => rfl
  | some q => exact deref_live (h q rfl) _

theorem clash_live {s : RangeSet ν π} {x : Option π} (h : ∀ q, x = some q → s.live q = true)
    (test : π → Bool) : s.clash x test = some (x.filter test) := by
  cases x with
  | none => rfl
  | some q => exact deref_live (h q rfl) _

theorem below_last {lo : π → Nat} {l : List π} {q : π} (h : l.Pairwise fun p q => lo p < lo q)
    (hq : q ∈ l) : ∃ r, l.getLast? = some r ∧ (q = r ∨ lo q < lo r) := by
  have hr := List.getLast?_eq_some_getLast (List.ne_nil_of_mem hq)
  refine ⟨_, hr, ?_⟩
  obtain ⟨rest, hrest⟩ := List.getLast?_eq_some_iff.mp hr
  rw [hrest] at h hq
  rcases List.mem_append.mp hq with hq | hq
  · exact .inr ((List.pairwise_append.mp h).2.2 q hq _ (List.mem_singleton_self _))
  · exact .inl (List.mem_singleton.mp hq)

section
variable [DecidableEq ν] [Fintype ν] {cut : Prop} {s : RangeSet ν π} {before behind : List π}

theorem Tracked.nodup {l : List π} (h : s.Tracked cut l) : l.Nodup :=
  h.sorted.imp fun hpq heq => absurd (heq ▸ hpq) (lt_irrefl _)

theorem findNearest_split (h : s.Tracked cut (before ++ behind)) {a : Nat}
    (hbefore : ∀ p ∈ before, s.lo p ≤ a) (hbehind : ∀ q ∈ behind, a < s.lo q) :
    s.loTree.treeFindNearest (a : Int) = some before.getLast? := by
  obtain ⟨t, ht, hentries⟩ := h.tree
  have hleft : (before.map s.entry).filter (fun e => e.1 ≤ (a : Int)) = before.map s.entry :=
    List.filter_eq_self.mpr (by simpa [entry] using hbefore)
  have hright : (behind.map s.entry).filter (fun e => e.1 ≤ (a : Int)) = [] :=
    List.filter_eq_nil_iff.mpr (by simpa [entry] using hbehind)
  rw [Tree.treeFindNearest_eq ht.toKeyed, hentries, nearest, List.map_append, List.filter_append,
    hleft, hright, List.append_nil, List.getLast?_map]
  cases before.getLast? <;> rfl

end

theorem Joined.following {cut : Prop} {s : RangeSet ν π} {x y : Option π} (h : s.Joined cut x y) :
    x.bind s.next = y ∨
      (x.bind s.next = none ∧ (∀ q, y = some q → s.prev q = none) ∧ (cut ∨ x = none)) := by
  cases x with
  | none =>
    cases y with
    | none => exact .inl rfl
    | some q => exact .inr ⟨rfl, fun _ hq => Option.some.inj hq ▸ h, .inr rfl⟩
  | some p =>
    cases y with
    | none => exact .inl h
    | some q =>
      rcases h with h | h
      · exact .inl h.1
      · exact .inr ⟨h.2.1, fun _ hq => Option.some.inj hq ▸ h.2.2, .inl h.1⟩

theorem Joined.follows {cut : Prop} {s : RangeSet ν π} {x y : Option π} {q : π}
    (h : s.Joined cut x y) (hq : x.bind s.next = some q) : y = some q := by
  rcases h.following with hn | ⟨hn, -⟩
  · rw [← hn, hq]
  · rw [hn] at hq
    cases hq

theorem Joined.preceding {cut : Prop} {s : RangeSet ν π} {p : π} {x : Option π}
    (h : s.Joined cut x (some p)) :
    (s.prev p = x ∧ ∀ a, x = some a → s.next a = some p ∧ s.hi a < s.lo p) ∨
      (cut ∧ s.prev p = none ∧ ∀ a, x = some a → s.next a = none) := by
  cases x with
  | none => exact .inl ⟨h, fun a ha => by cases ha⟩
  | some a =>
    rcases h with ⟨hn, hp, hlt⟩ | ⟨hc, hn, hp⟩
    · refine .inl ⟨hp, fun c hc => ?_⟩
      cases hc
      exact ⟨hn, hlt⟩
    · refine .inr ⟨hc, hp, fun c hc => ?_⟩
      cases hc
      exact hn

theorem Joined.precedes {cut : Prop} {s : RangeSet ν π} {p q : π} {x : Option π}
    (h : s.Joined cut x (some p)) (hq : s.prev p = some q) : x = some q := by
  rcases h.preceding with ⟨hp, -⟩ | ⟨-, hp, -⟩
  · rw [← hp, hq]
  · rw [hp] at hq
    cases hq

theorem Joined.succeeding {cut : Prop} {s : RangeSet ν π} {p : π} {y : Option π}
    (h : s.Joined cut (some p) y) :
    (s.next p = y ∧ ∀ c, y = some c → s.prev c = some p ∧ s.hi p < s.lo c) ∨
      (cut ∧ s.next p = none ∧ ∀ c, y = some c → s.prev c = none) := by
  cases y with
  | none => exact .inl ⟨h, fun c hc => by cases hc⟩
  | some c =>
    rcases h with ⟨hn, hp, hlt⟩ | ⟨hcut, hn, hp⟩
    · refine .inl ⟨hn, fun d hd => ?_⟩
      cases hd
      exact ⟨hp, hlt⟩
    · refine .inr ⟨hcut, hn, fun d hd => ?_⟩
      cases hd
      exact hp

def Precedes (s : RangeSet ν π) (p q : π) : Prop := s.hi p < s.lo q ∧ s.lo q ≤ s.hi q

instance (s : RangeSet ν π) : Trans s.Precedes s.Precedes s.Precedes :=
  ⟨fun h₁ h₂ => ⟨h₁.1.trans_le (h₁.2.trans h₂.1.le), h₂.2⟩⟩

theorem Tracked.apart [DecidableEq ν] [Fintype ν] {s : RangeSet ν π} {l : List π} (h : s.Tracked False l) :
    l.Pairwise fun p q => s.hi p < s.lo q := by
  obtain ⟨-, hright, -⟩ := (chain_split [] l).mp h.joined
  have hchain := (List.isChain_map (some : π → Option π)).mp hright.left_of_append
  have hbefore : l.IsChain s.Precedes := hchain.imp_of_mem_imp fun p q _ hq hj => by
    rcases hj with ⟨-, -, hlt⟩ | ⟨hc, -⟩
    · exact ⟨hlt, (h.extent q hq).1⟩
    · exact hc.elim
  exact hbefore.pairwise.imp And.left

theorem Tracked.walk_list [DecidableEq ν] [Fintype ν] {s : RangeSet ν π} {l : List π} (h : s.Tracked False l) :
    s.walk (l.length + 1) s.list = some l := by
  have hall : ∀ behind : List π, (right behind).IsChain (s.Joined False) →
      (∀ q ∈ behind, s.live q = true) → s.walk (behind.length + 1) behind.head? = some behind := by
    intro behind hr hlive
    induction behind with
    | nil => rfl
    | cons q rest ih =>
      obtain ⟨hj, hr⟩ := (right_cons _ _).mp hr
      obtain ⟨hq, hlive⟩ := List.forall_mem_cons.mp hlive
      have hnext : s.next q = rest.head? := by
        rcases hj.succeeding with ⟨hn, -⟩ | ⟨hc, -⟩
        · exact hn
        · exact hc.elim
      rw [List.head?_cons, List.length_cons, walk, deref_live hq, Option.bind_eq_bind, Option.bind_some,
        hnext, ih hr hlive]
      rfl
  obtain ⟨-, hright, -⟩ := (chain_split [] l).mp h.joined
  rw [h.head id]
  exact hall l hright fun q hq => (h.live q).mpr hq

section
variable [DecidableEq π]

def withNext (s : RangeSet ν π) (q v : Option π) : RangeSet ν π :=
  match q with
  | none => { s with list := v }
  | some q => { s with next := Function.update s.next q v }

def withPrev (s : RangeSet ν π) (q v : Option π) : RangeSet ν π :=
  match q with
  | none => s
  | some q => { s with prev := Function.update s.prev q v }

section
variable (s : RangeSet ν π) (q v : Option π)

theorem setNextOf_live (h : ∀ x, q = some x → s.live x = true) :
    s.setNextOf q v = some (s.withNext q v) := by
  cases q with
  | none => rfl
  | some x => exact deref_live (h x rfl) _

theorem setPrevOf_live (h : ∀ x, q = some x → s.live x = true) :
    s.setPrevOf q v = some (s.withPrev q v) := by
  cases q with
  | none => rfl
  | some x => exact deref_live (h x rfl) _

@[simp] theorem withNext_loTree : (s.withNext q v).loTree = s.loTree := by cases q <;> rfl

@[simp] theorem withNext_live : (s.withNext q v).live = s.live := by cases q <;> rfl

@[simp] theorem withNext_lo : (s.withNext q v).lo = s.lo := by cases q <;> rfl

@[simp] theorem withNext_hi : (s.withNext q v).hi = s.hi := by cases q <;> rfl

@[simp] theorem withNext_prev : (s.withNext q v).prev = s.prev := by cases q <;> rfl

@[simp] theorem withPrev_loTree : (s.withPrev q v).loTree = s.loTree := by cases q <;> rfl

@[simp] theorem withPrev_live : (s.withPrev q v).live = s.live := by cases q <;> rfl

@[simp] theorem withPrev_lo : (s.withPrev q v).lo = s.lo := by cases q <;> rfl

@[simp] theorem withPrev_hi : (s.withPrev q v).hi = s.hi := by cases q <;> rfl

@[simp] theorem withPrev_next : (s.withPrev q v).next = s.next := by cases q <;> rfl

@[simp] theorem withPrev_list : (s.withPrev q v).list = s.list := by cases q <;> rfl

@[simp] theorem withNext_list : (s.withNext q v).list = if q = none then v else s.list := by
  cases q <;> rfl

@[simp] theorem withNext_next (x : π) :
    (s.withNext q v).next x = if q = some x then v else s.next x := by
  cases q with
  | none => rfl
  | some y => simp [withNext, Function.update_apply, eq_comm]

@[simp] theorem withPrev_prev (x : π) :
    (s.withPrev q v).prev x = if q = some x then v else s.prev x := by
  cases q with
  | none => rfl
  | some y => simp [withPrev, Function.update_apply, eq_comm]

end

def freed (s : RangeSet ν π) (p : π) : RangeSet ν π :=
  { s with live := Function.update s.live p false }

theorem free_live {s : RangeSet ν π} {p : π} (h : s.live p = true) : s.free p = some (s.freed p) :=
  deref_live h _

@[simp] theorem freed_live (s : RangeSet ν π) (p : π) :
    (s.freed p).live = Function.update s.live p false := rfl

theorem foldlM_free {s : RangeSet ν π} {l : List π} (hd : l.Nodup)
    (hl : ∀ p ∈ l, s.live p = true) :
    ∃ s', l.foldlM free s = some s' ∧ ∀ x, s'.live x = true ↔ s.live x = true ∧ x ∉ l := by
  induction l generalizing s with
  | nil => exact ⟨s, rfl, by simp⟩
  | cons p rest ih =>
    obtain ⟨hp, hrest⟩ := List.nodup_cons.mp hd
    have hfree := free_live (hl p (by simp))
    have hother : ∀ q ∈ rest, (s.freed p).live q = true := fun q hq => by
      have hne : q ≠ p := fun h => hp (h ▸ hq)
      simpa [hne] using hl q (by simp [hq])
    obtain ⟨s', hs, hlive⟩ := ih (s := s.freed p) hrest hother
    refine ⟨s', by rw [List.foldlM_cons, hfree]; exact hs, fun x => (hlive x).trans ?_⟩
    by_cases hx : x = p
    · simp [hx]
    · simp [hx]

def linked (s : RangeSet ν π) (b : Block) (p : π) (prev : Option π) : RangeSet ν π :=
  ((s.createRange p b prev (prev.bind s.next)).withNext prev (some p)).withPrev
    (prev.bind s.next) (some p)

def unlinked (s : RangeSet ν π) (p : π) : RangeSet ν π :=
  (s.withNext (s.prev p) (s.next p)).withPrev (s.next p) (s.prev p)

end

end RangeSet
end OperatingSystems.Driver
