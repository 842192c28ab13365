import OperatingSystems.Library.DoublyLinked
import OperatingSystems.Malloc.Mm

namespace OperatingSystems.Malloc
open ByteMemory TaggedWord DoublyLinked

structure Block where
  size : Nat
  alloc : Bool
  aligned : size % 16 = 0
  large : 32 ≤ size
deriving DecidableEq

namespace Block

def header (b : Block) (prev : Bool) : Nat := b.size + (2 * prev.toNat + b.alloc.toNat)

def withAlloc (b : Block) (alloc : Bool) : Block := { b with alloc := alloc }

def inner (b : Block) : Nat := if b.alloc then b.size else b.size - 8

theorem inner_bounds (b : Block) : b.size - 8 ≤ b.inner ∧ b.inner ≤ b.size := by
  unfold inner
  split <;> omega

theorem tag_lt (b : Block) (prev : Bool) : 2 * prev.toNat + b.alloc.toNat < 4 := by
  cases prev <;> cases b.alloc <;> decide

theorem size_mod_four (b : Block) : b.size % 4 = 0 := by
  have := b.aligned
  omega

end Block

def total : List Block → Nat
  | [] => 0
  | b :: bs => b.size + total bs

def lastAlloc (prev : Bool) : List Block → Bool
  | [] => prev
  | b :: bs => lastAlloc b.alloc bs

def headWord (prev : Bool) : List Block → Nat
  | [] => 2 * prev.toNat + 1
  | b :: _ => b.header prev

def placed (a : Nat) : List Block → List (Nat × Block)
  | [] => []
  | b :: bs => (a, b) :: placed (a + b.size) bs

def freeAddrs (a : Nat) (bs : List Block) : List Nat :=
  ((placed a bs).filter fun x => !x.2.alloc).map Prod.fst

def Tags (m : Memory) (a : Nat) (prev : Bool) : List Block → Prop
  | [] => True
  | b :: bs => read m a 8 = b.header prev ∧
      (b.alloc = false → read m (a + b.size - 8) 8 = b.size) ∧ Tags m (a + b.size) b.alloc bs

-- the walk from `a` over the blocks up to and including the epilogue word
def Tiled (m : Memory) (a : Nat) (prev : Bool) (bs : List Block) : Prop :=
  Tags m a prev bs ∧ read m (a + total bs) 8 = headWord (lastAlloc prev bs) []

def Slack (a : Nat) (bs : List Block) (y : Nat) : Prop :=
  ∃ x b, (x, b) ∈ placed a bs ∧ x + 8 ≤ y ∧ y < x + b.inner

@[simp] theorem total_nil : total [] = 0 := rfl
@[simp] theorem total_cons (b : Block) (bs : List Block) : total (b :: bs) = b.size + total bs := rfl
@[simp] theorem lastAlloc_nil (p : Bool) : lastAlloc p [] = p := rfl
@[simp] theorem lastAlloc_cons (p : Bool) (b : Block) (bs : List Block) :
    lastAlloc p (b :: bs) = lastAlloc b.alloc bs := rfl
@[simp] theorem placed_nil (a : Nat) : placed a [] = [] := rfl
@[simp] theorem placed_cons (a : Nat) (b : Block) (bs : List Block) :
    placed a (b :: bs) = (a, b) :: placed (a + b.size) bs := rfl

@[simp] theorem total_append (l₁ l₂ : List Block) : total (l₁ ++ l₂) = total l₁ + total l₂ := by
  induction l₁ with
  | nil => simp
  | cons b l ih => simp [ih, Nat.add_assoc]

@[simp] theorem lastAlloc_append (p : Bool) (l₁ l₂ : List Block) :
    lastAlloc p (l₁ ++ l₂) = lastAlloc (lastAlloc p l₁) l₂ := by
  induction l₁ generalizing p with
  | nil => rfl
  | cons b l ih => simp [ih]

@[simp] theorem placed_append (a : Nat) (l₁ l₂ : List Block) :
    placed a (l₁ ++ l₂) = placed a l₁ ++ placed (a + total l₁) l₂ := by
  induction l₁ generalizing a with
  | nil => simp
  | cons b l ih => simp [ih, Nat.add_assoc]

theorem total_mod (bs : List Block) : total bs % 16 = 0 := by
  induction bs with
  | nil => rfl
  | cons b bs ih =>
    have := b.aligned
    simp only [total_cons]
    omega

theorem placed_bounds {a x : Nat} {b : Block} {bs : List Block} (h : (x, b) ∈ placed a bs) :
    a ≤ x ∧ x + b.size ≤ a + total bs := by
  induction bs generalizing a with
  | nil => simp at h
  | cons c bs ih =>
    simp only [placed_cons, List.mem_cons, Prod.mk.injEq] at h
    rcases h with ⟨rfl, rfl⟩ | h
    · simp only [total_cons]
      omega
    · have := ih h
      simp only [total_cons]
      omega

theorem placed_mod {a x : Nat} {b : Block} {bs : List Block} (h : (x, b) ∈ placed a bs) :
    x % 16 = a % 16 := by
  induction bs generalizing a with
  | nil => simp at h
  | cons c bs ih =>
    simp only [placed_cons, List.mem_cons, Prod.mk.injEq] at h
    rcases h with ⟨rfl, rfl⟩ | h
    · rfl
    · have := ih h
      have := c.aligned
      omega

theorem placed_apart {a x y : Nat} {b c : Block} {bs : List Block} (hx : (x, b) ∈ placed a bs)
    (hy : (y, c) ∈ placed a bs) :
    (x = y ∧ b = c) ∨ x + b.size ≤ y ∨ y + c.size ≤ x := by
  induction bs generalizing a with
  | nil => simp at hx
  | cons d bs ih =>
    simp only [placed_cons, List.mem_cons, Prod.mk.injEq] at hx hy
    rcases hx with ⟨rfl, rfl⟩ | hx <;> rcases hy with ⟨rfl, rfl⟩ | hy
    · exact .inl ⟨rfl, rfl⟩
    · exact .inr (.inl (placed_bounds hy).1)
    · exact .inr (.inr (placed_bounds hx).1)
    · exact ih hx hy

theorem placed_split {a x : Nat} {b : Block} {bs : List Block} (h : (x, b) ∈ placed a bs) :
    ∃ pre post, bs = pre ++ b :: post ∧ x = a + total pre := by
  induction bs generalizing a with
  | nil => simp at h
  | cons c bs ih =>
    simp only [placed_cons, List.mem_cons, Prod.mk.injEq] at h
    rcases h with ⟨rfl, rfl⟩ | h
    · exact ⟨[], bs, rfl, by simp⟩
    · obtain ⟨pre, post, rfl, rfl⟩ := ih h
      exact ⟨c :: pre, post, rfl, by simp [Nat.add_assoc]⟩

theorem mem_freeAddrs {a x : Nat} {bs : List Block} :
    x ∈ freeAddrs a bs ↔ ∃ b, (x, b) ∈ placed a bs ∧ b.alloc = false := by
  simp [freeAddrs]

@[simp] theorem freeAddrs_nil (a : Nat) : freeAddrs a [] = [] := rfl

theorem freeAddrs_cons (a : Nat) (b : Block) (bs : List Block) :
    freeAddrs a (b :: bs) = (if b.alloc then [] else [a]) ++ freeAddrs (a + b.size) bs := by
  unfold freeAddrs
  cases hb : b.alloc <;> simp [hb]

@[simp] theorem freeAddrs_append (a : Nat) (l₁ l₂ : List Block) :
    freeAddrs a (l₁ ++ l₂) = freeAddrs a l₁ ++ freeAddrs (a + total l₁) l₂ := by
  simp [freeAddrs]

@[simp] theorem tags_nil (m : Memory) (a : Nat) (p : Bool) : Tags m a p [] := trivial

theorem tags_append {m : Memory} {a : Nat} {p : Bool} {l₁ l₂ : List Block} :
    Tags m a p (l₁ ++ l₂) ↔ Tags m a p l₁ ∧ Tags m (a + total l₁) (lastAlloc p l₁) l₂ := by
  induction l₁ generalizing a p with
  | nil => simp
  | cons b l ih =>
    simp only [List.cons_append, Tags, ih, total_cons, lastAlloc_cons, ← Nat.add_assoc]
    tauto

theorem tiled_append {m : Memory} {a : Nat} {p : Bool} {l₁ l₂ : List Block} :
    Tiled m a p (l₁ ++ l₂) ↔ Tags m a p l₁ ∧ Tiled m (a + total l₁) (lastAlloc p l₁) l₂ := by
  simp only [Tiled, tags_append, total_append, lastAlloc_append, ← Nat.add_assoc]
  tauto

theorem tiled_cons {m : Memory} {a : Nat} {p : Bool} {b : Block} {bs : List Block} :
    Tiled m a p (b :: bs) ↔ read m a 8 = b.header p ∧
      (b.alloc = false → read m (a + b.size - 8) 8 = b.size) ∧ Tiled m (a + b.size) b.alloc bs := by
  simp only [Tiled, Tags, total_cons, lastAlloc_cons, ← Nat.add_assoc]
  tauto

theorem tiled_nil {m : Memory} {a : Nat} {p : Bool} :
    Tiled m a p [] ↔ read m a 8 = 2 * p.toNat + 1 := by simp [Tiled, headWord]

theorem tiled_head {m : Memory} {a : Nat} {p : Bool} {bs : List Block} (h : Tiled m a p bs) :
    read m a 8 = headWord p bs := by
  cases bs with
  | nil => exact tiled_nil.mp h
  | cons b bs => exact (tiled_cons.mp h).1

theorem slack_cons {a y : Nat} {b : Block} {bs : List Block} :
    Slack a (b :: bs) y ↔ (a + 8 ≤ y ∧ y < a + b.inner) ∨ Slack (a + b.size) bs y := by
  simp [Slack, or_and_right, exists_or]

theorem slack_bounds {a y : Nat} {bs : List Block} (h : Slack a bs y) :
    a + 8 ≤ y ∧ y < a + total bs := by
  obtain ⟨x, b, hx, h1, h2⟩ := h
  have := placed_bounds hx
  have := b.inner_bounds
  omega

theorem slack_append {a y : Nat} {l₁ l₂ : List Block} :
    Slack a (l₁ ++ l₂) y ↔ Slack a l₁ y ∨ Slack (a + total l₁) l₂ y := by
  simp [Slack, or_and_right, exists_or]

theorem tags_frame {m m' : Memory} {a : Nat} {p : Bool} {bs : List Block} (h : Tags m a p bs)
    (keep : ∀ y, a ≤ y → y < a + total bs → ¬ Slack a bs y → m' y = m y) : Tags m' a p bs := by
  induction bs generalizing a p with
  | nil => trivial
  | cons b bs ih =>
    obtain ⟨hh, hf, ht⟩ := h
    have hl := b.large
    have hi := b.inner_bounds
    simp only [total_cons] at keep
    refine ⟨?_, fun hb => ?_, ih ht ?_⟩
    · rw [← hh]
      refine read_congr fun y h1 h2 => keep y h1 (by omega) ?_
      rw [slack_cons]
      rintro (hs | hs)
      · omega
      · have := slack_bounds hs
        omega
    · refine (read_congr (m := m) fun y h1 h2 => keep y (by omega) (by omega) ?_).trans (hf hb)
      rw [slack_cons]
      rintro (hs | hs)
      · simp only [Block.inner, hb] at hs
        simp at hs
        omega
      · have := slack_bounds hs
        omega
    · intro y h1 h2 hs
      refine keep y (by omega) (by omega) ?_
      rw [slack_cons]
      rintro (hs' | hs')
      · omega
      · exact hs hs'

theorem tiled_frame {m m' : Memory} {a : Nat} {p : Bool} {bs : List Block} (h : Tiled m a p bs)
    (keep : ∀ y, a ≤ y → y < a + total bs + 8 → ¬ Slack a bs y → m' y = m y) :
    Tiled m' a p bs := by
  refine ⟨tags_frame h.1 fun y h1 h2 => keep y h1 (by omega), ?_⟩
  rw [← h.2]
  refine read_congr fun y h1 h2 => keep y (by omega) (by omega) fun hs => ?_
  have := slack_bounds hs
  omega

theorem tiled_setPrev {m m' : Memory} {a : Nat} {p p' : Bool} {bs : List Block}
    (h : Tiled m a p bs) (hw : read m' a 8 = headWord p' bs)
    (keep : ∀ y, a + 8 ≤ y → y < a + total bs + 8 → ¬ Slack a bs y → m' y = m y) :
    Tiled m' a p' bs := by
  cases bs with
  | nil => exact tiled_nil.mpr hw
  | cons b bs =>
    obtain ⟨-, hf, ht⟩ := tiled_cons.mp h
    have hl := b.large
    have hi := b.inner_bounds
    simp only [total_cons] at keep
    refine tiled_cons.mpr ⟨hw, fun hb => ?_, tiled_frame ht ?_⟩
    · refine (read_congr (m := m) fun y h1 h2 => keep y (by omega) (by omega) ?_).trans (hf hb)
      rw [slack_cons]
      rintro (hs | hs)
      · simp only [Block.inner, hb] at hs
        simp at hs
        omega
      · have := slack_bounds hs
        omega
    · intro y h1 h2 hs
      refine keep y (by omega) (by omega) ?_
      rw [slack_cons]
      rintro (hs' | hs')
      · omega
      · exact hs hs'

theorem tiled_replace {m m' : Memory} {a : Nat} {p : Bool} {pre post : List Block} {b c : Block}
    (h : Tiled m a p (pre ++ b :: post)) (hsize : c.size = b.size)
    (keep : ∀ y, (y < a + total pre ∨ a + total pre + 8 ≤ y) →
      (y < a + total pre + b.size - 8 ∨ a + total pre + b.size + 8 ≤ y) → m' y = m y)
    (hhead : read m' (a + total pre) 8 = c.header (lastAlloc p pre))
    (hfoot : c.alloc = false → read m' (a + total pre + c.size - 8) 8 = c.size)
    (hnext : read m' (a + total pre + c.size) 8 = headWord c.alloc post) :
    Tiled m' a p (pre ++ c :: post) := by
  obtain ⟨htags, hrest⟩ := tiled_append.mp h
  obtain ⟨-, -, hpost⟩ := tiled_cons.mp hrest
  have hlarge := b.large
  rw [← hsize] at hpost
  refine tiled_append.mpr ⟨tags_frame htags ?_, tiled_cons.mpr ⟨hhead, hfoot, ?_⟩⟩
  · intro y _ hy _
    exact keep y (by omega) (by omega)
  · refine tiled_setPrev hpost hnext ?_
    intro y h1 _ _
    exact keep y (by omega) (by omega)

theorem headWord_eq (p : Bool) (bs : List Block) :
    ∃ size t, headWord p bs = size + t ∧ size % 16 = 0 ∧ t = 2 * p.toNat + t % 2 ∧ t < 4 := by
  cases bs with
  | nil => exact ⟨0, 2 * p.toNat + 1, by simp [headWord], rfl, by omega, by cases p <;> decide⟩
  | cons b bs =>
    refine ⟨b.size, 2 * p.toNat + b.alloc.toNat, rfl, b.aligned, ?_, b.tag_lt p⟩
    have : b.alloc.toNat < 2 := Bool.toNat_lt _
    omega

theorem tags_unique {m : Memory} {a : Nat} {p : Bool} {pre bs : List Block} (h : Tags m a p pre)
    (ht : Tiled m a p bs) : ∃ rest, bs = pre ++ rest := by
  induction pre generalizing a p bs with
  | nil => exact ⟨bs, rfl⟩
  | cons b pre ih =>
    cases bs with
    | nil =>
      have h1 := h.1
      rw [tiled_nil.mp ht, Block.header] at h1
      have := b.large
      have : p.toNat < 2 := Bool.toNat_lt _
      omega
    | cons c bs =>
      obtain ⟨hc, -, hcs⟩ := tiled_cons.mp ht
      have hbc : b.header p = c.header p := h.1.symm.trans hc
      have heq : b = c := by
        have h1 := b.aligned
        have h2 := c.aligned
        have h3 : b.alloc.toNat < 2 := Bool.toNat_lt _
        have h4 : c.alloc.toNat < 2 := Bool.toNat_lt _
        have h5 : p.toNat < 2 := Bool.toNat_lt _
        unfold Block.header at hbc
        have hsize : b.size = c.size := by omega
        have halloc : b.alloc = c.alloc := by
          rw [Bool.eq_iff_iff, ← Bool.toNat_eq_one, ← Bool.toNat_eq_one]
          omega
        cases b
        cases c
        simp_all
      subst heq
      obtain ⟨rest, rfl⟩ := ih h.2.2 hcs
      exact ⟨rest, rfl⟩

end OperatingSystems.Malloc
