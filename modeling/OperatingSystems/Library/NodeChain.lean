import OperatingSystems.Library.ForLoop
import OperatingSystems.Library.LinkedRing

namespace OperatingSystems.NodeChain
open LinkedRing ForLoop

variable {ν : Type}

-- a link of every node, with the end of the list it starts from at `NULL`
def joined (first : Option ν) (link : ν → Option ν) : Option ν → Option ν
  | none => first
  | some n => link n

@[simp] theorem joined_none (first : Option ν) (link : ν → Option ν) :
    joined first link none = first := rfl

@[simp] theorem joined_some (first : Option ν) (link : ν → Option ν) (n : ν) :
    joined first link (some n) = link n := rfl

structure Chain (head tail : Option ν) (next prev : ν → Option ν) (nodes : List ν) : Prop where
  ring : Ring none (joined head next) (joined tail prev) (nodes.map some)
  nodup : nodes.Nodup

section
variable {head tail head' tail' : Option ν} {next prev next' prev' : ν → Option ν}
  {nodes : List ν}

theorem chain_nil (next prev : ν → Option ν) : Chain none none next prev [] :=
  ⟨ring_nil.mpr ⟨rfl, rfl⟩, List.nodup_nil⟩

theorem null_nodup (h : nodes.Nodup) : (none :: nodes.map some).Nodup := by
  simpa using h.map fun _ _ => Option.some.inj

theorem chain_reverse (h : Chain head tail next prev nodes) :
    Chain tail head prev next nodes.reverse :=
  ⟨List.map_reverse ▸ ring_reverse h.ring, List.nodup_reverse.mpr h.nodup⟩

theorem chain_congr (h : Chain head tail next prev nodes)
    (hn : ∀ p ∈ none :: nodes.map some, joined head' next' p = joined head next p)
    (hp : ∀ p ∈ none :: nodes.map some, joined tail' prev' p = joined tail prev p) :
    Chain head' tail' next' prev' nodes :=
  ⟨ring_congr h.ring hn hp, h.nodup⟩

variable (l₁ l₂ l₃ : List ν)

theorem place_split : ∃ w z, none :: l₁.map some = w ++ [l₁.getLast?] ∧
    l₂.map some ++ [none] = l₂.head? :: z := by
  obtain ⟨w, u, v, z, hw, hz, -⟩ := ring_split none (l₁.map some) (l₂.map some)
  have hu : l₁.getLast? = u := by
    rcases List.eq_nil_or_concat l₁ with rfl | ⟨l, n, rfl⟩
    · cases w with
      | nil => exact (List.cons.inj hw).1
      | cons a w => simp at hw
    · rw [List.concat_eq_append, List.map_append, ← List.cons_append] at hw
      rw [List.concat_eq_append, List.getLast?_concat]
      exact List.singleton_inj.mp (List.append_inj' hw rfl).2
  have hv : l₂.head? = v := by
    cases l₂ with
    | nil => exact (List.cons.inj hz).1
    | cons m l₂ => exact (List.cons.inj hz).1
  exact ⟨w, z, hu ▸ hw, hv ▸ hz⟩

theorem chain_around (h : Chain head tail next prev (l₁ ++ l₂)) :
    joined head next l₁.getLast? = l₂.head? ∧ joined tail prev l₂.head? = l₁.getLast? := by
  obtain ⟨w, z, hw, hz⟩ := place_split l₁ l₂
  exact ring_neighbours (by simpa using h.ring) hw hz

theorem chain_head (h : Chain head tail next prev nodes) : head = nodes.head? :=
  (chain_around [] nodes h).1

theorem chain_tail (h : Chain head tail next prev nodes) : tail = nodes.getLast? :=
  (chain_around nodes [] (by simpa using h)).2

theorem chain_next {x : ν} (h : Chain head tail next prev (l₁ ++ x :: l₂)) :
    next x = l₂.head? ∧ prev x = l₁.getLast? := by
  obtain ⟨hnext, -⟩ := chain_around (l₁ ++ [x]) l₂ (by simpa using h)
  obtain ⟨-, hprev⟩ := chain_around _ _ h
  exact ⟨by simpa using hnext, by simpa using hprev⟩

theorem chain_ends {x : ν} (h : Chain head tail next prev (l₁ ++ x :: l₂)) :
    (some x = head ↔ prev x = none) ∧ (some x = tail ↔ next x = none) := by
  have hring : Ring none (joined head next) (joined tail prev)
      (l₁.map some ++ some x :: l₂.map some) := by simpa using h.ring
  obtain ⟨hfirst, hlast⟩ := ring_ends hring
  obtain ⟨hsp, hps⟩ := ring_around hring
  exact ⟨⟨fun e => (congrArg (joined tail prev) e).trans hfirst,
      fun e => hsp.symm.trans (congrArg (joined head next) e)⟩,
    fun e => (congrArg (joined head next) e).trans hlast,
    fun e => hps.symm.trans (congrArg (joined tail prev) e)⟩

theorem chain_walk (go : Option ν → Prop) (h : Chain head tail next prev (l₁ ++ (l₂ ++ l₃)))
    (hgo : ∀ n ∈ l₂, go (some n)) :
    Walk (·.bind next) go l₃.head? (l₂ ++ l₃).head? (l₂.map some) := by
  induction l₂ generalizing l₁ with
  | nil => rfl
  | cons n l₂ ih =>
    have hnext : next n = (l₂ ++ l₃).head? := (chain_next _ _ h).1
    refine ⟨rfl, hgo n List.mem_cons_self, ?_⟩
    change Walk _ go _ (next n) _
    rw [hnext]
    exact ih (l₁ ++ [n]) (by simpa using h) fun m hm => hgo m (List.mem_cons_of_mem n hm)

section
variable {go : Option ν → Prop} [DecidablePred go] (h : Chain head tail next prev (l₁ ++ l₂))
  (hgo : ∀ n ∈ l₁, go (some n)) (hstop : ¬ go l₂.head?) {fuel : Nat} (hfuel : l₁.length < fuel)
include h hgo hstop hfuel

theorem whileLoop_chain : whileLoop (·.bind next) go fuel head = some l₂.head? := by
  have hwalk := chain_walk [] l₁ l₂ go h hgo
  rw [← chain_head h] at hwalk
  exact whileLoop_walk hwalk hstop (by simpa using hfuel)

theorem forLoop_chain {β : Type} {body : Option ν → Option (List β)} (out : ν → List β)
    (hbody : ∀ n ∈ l₁, body (some n) = some (out n)) :
    forLoop (·.bind next) go body fuel head = some (l₁.flatMap out) := by
  have hwalk := chain_walk [] l₁ l₂ go h hgo
  rw [← chain_head h] at hwalk
  have hbody' : ∀ p ∈ l₁.map some, body p = some (p.toList.flatMap out) := by
    intro p hp
    obtain ⟨n, hn, rfl⟩ := List.mem_map.mp hp
    simpa using hbody n hn
  rw [forLoop_walk hwalk hstop hbody' (by simpa using hfuel)]
  simp [List.flatMap_map]

end

variable [DecidableEq ν]

theorem update_joined_none (first v : Option ν) (link : ν → Option ν) :
    Function.update (joined first link) none v = joined v link := by
  funext p
  cases p <;> simp

theorem update_joined_some (first v : Option ν) (link : ν → Option ν) (n : ν) :
    Function.update (joined first link) (some n) v = joined first (Function.update link n v) := by
  funext p
  cases p with
  | none => simp
  | some m => by_cases hm : m = n <;> simp [hm]

theorem joined_update_ne {p first v : Option ν} {link : ν → Option ν} {n : ν} (hp : p ≠ some n) :
    joined first (Function.update link n v) p = joined first link p := by
  rw [← update_joined_some]
  exact Function.update_of_ne hp _ _

theorem update_same {link : ν → Option ν} {n : ν} {v : Option ν} (h : link n = v) :
    Function.update link n v = link := by
  rw [← h, Function.update_eq_self]

theorem chain_fresh {x : ν} (h : Chain head tail next prev nodes) (hx : x ∉ nodes)
    (v w : Option ν) :
    Chain head tail (Function.update next x v) (Function.update prev x w) nodes := by
  have hne : ∀ p ∈ none :: nodes.map some, p ≠ some x := by
    rintro p hp rfl
    exact hx (by simpa using hp)
  exact chain_congr h (fun p hp => joined_update_ne (hne p hp))
    fun p hp => joined_update_ne (hne p hp)

theorem chain_insert {x : ν} (h : Chain head tail next prev (l₁ ++ l₂)) (hx : x ∉ l₁ ++ l₂)
    (hn : joined head' next' =
      Function.update (Function.update (joined head next) l₁.getLast? (some x)) (some x) l₂.head?)
    (hp : joined tail' prev' =
      Function.update (Function.update (joined tail prev) l₂.head? (some x)) (some x) l₁.getLast?) :
    Chain head' tail' next' prev' (l₁ ++ x :: l₂) := by
  obtain ⟨w, z, hw, hz⟩ := place_split l₁ l₂
  have hring : Ring none (joined head next) (joined tail prev) (l₁.map some ++ l₂.map some) := by
    simpa using h.ring
  have hins := ring_insert (x := some x) hring (by simpa using null_nodup h.nodup)
    (by simpa using hx) hw hz
  refine ⟨?_, List.perm_middle.nodup_iff.mpr (List.nodup_cons.mpr ⟨hx, h.nodup⟩)⟩
  rw [hn, hp]
  simpa using hins

theorem chain_remove {x : ν} (h : Chain head tail next prev (l₁ ++ x :: l₂))
    (hn : ∀ p ≠ some x, joined head' next' p =
      Function.update (joined head next) (prev x) (next x) p)
    (hp : ∀ p ≠ some x, joined tail' prev' p =
      Function.update (joined tail prev) (next x) (prev x) p) :
    Chain head' tail' next' prev' (l₁ ++ l₂) := by
  obtain ⟨hx, hnodup⟩ := List.nodup_cons.mp (List.perm_middle.nodup_iff.mp h.nodup)
  have hring : Ring none (joined head next) (joined tail prev)
      (l₁.map some ++ some x :: l₂.map some) := by simpa using h.ring
  have hrem := ring_remove hring (by simpa using null_nodup h.nodup)
  have hne : ∀ p ∈ none :: (l₁ ++ l₂).map some, p ≠ some x := by
    rintro p hp rfl
    exact hx (by simpa using hp)
  refine ⟨?_, hnodup⟩
  rw [List.map_append] at hne ⊢
  exact ring_congr hrem (fun p hp' => hn p (hne p hp')) fun p hp' => hp p (hne p hp')

end

end OperatingSystems.NodeChain
