import Mathlib.Data.List.Chain
import OperatingSystems.Malloc.Requests

namespace OperatingSystems.Malloc
open ByteMemory

def Separated (bs : List Block) : Prop := bs.IsChain fun b c => b.alloc = true ∨ c.alloc = true

instance (bs : List Block) : Decidable (Separated bs) :=
  inferInstanceAs (Decidable (bs.IsChain fun b c => b.alloc = true ∨ c.alloc = true))

-- what follows is in use; the epilogue counts as that
def Fenced (bs : List Block) : Prop := ∀ d ∈ bs.head?, d.alloc = true

theorem lastAlloc_iff {bs : List Block} :
    lastAlloc true bs = true ↔ ∀ b ∈ bs.getLast?, b.alloc = true := by
  rcases List.eq_nil_or_concat bs with rfl | ⟨bs, b, rfl⟩ <;> simp

theorem separated_append {l₁ l₂ : List Block} :
    Separated (l₁ ++ l₂) ↔
      Separated l₁ ∧ Separated l₂ ∧ (lastAlloc true l₁ = true ∨ Fenced l₂) := by
  rw [Separated, List.isChain_append, lastAlloc_iff, Fenced]
  refine and_congr_right fun _ => and_congr_right fun _ => ?_
  cases l₁.getLast? <;> cases l₂.head? <;> simp

theorem separated_cons {b : Block} {bs : List Block} :
    Separated (b :: bs) ↔ (b.alloc = true ∨ Fenced bs) ∧ Separated bs := by
  cases bs with
  | nil => simp [Separated, Fenced]
  | cons c bs => simp [Separated, Fenced]

theorem separated_middle {pre post : List Block} {b : Block} :
    Separated (pre ++ b :: post) ↔ Separated pre ∧ Separated post ∧
      (b.alloc = true ∨ lastAlloc true pre = true ∧ Fenced post) := by
  rw [separated_append, separated_cons]
  have hb : Fenced (b :: post) ↔ b.alloc = true := by simp [Fenced]
  rw [hb]
  tauto

theorem Granted.separated {a need found x : Nat} {bs bs' : List Block}
    (h : Granted a need found bs x bs') (hs : Separated bs) : Separated bs' := by
  cases h with
  | @whole pre post b free fits =>
    obtain ⟨hpre, hpost, -⟩ := separated_middle.mp hs
    exact separated_middle.mpr ⟨hpre, hpost, .inl rfl⟩
  | @split pre post b rest new free restFree newAlloc exact parts =>
    obtain ⟨hpre, hpost, hnext⟩ := separated_middle.mp hs
    obtain ⟨hlast, -⟩ := hnext.resolve_left (by simp [free])
    refine separated_middle.mpr ⟨hpre, separated_cons.mpr ⟨.inl newAlloc, hpost⟩, .inr ⟨hlast, ?_⟩⟩
    simp [Fenced, newAlloc]
  | @grow bs new newAlloc exact nofit =>
    exact separated_middle.mpr ⟨hs, .nil, .inl newAlloc⟩

theorem Separated.not_doubleGap {pre post : List Block} (h : Separated (pre ++ post)) :
    ¬ DoubleGap pre := by
  rintro ⟨q, c, d, rfl, hc, hd⟩
  have hcd := (separated_append.mp (separated_append.mp h).1).2.1
  simp [separated_cons, Fenced, hc, hd] at hcd

theorem wellFormed_unique {s : Heap} {bs bs' : List Block} {fl fl' : List Nat}
    (h : WellFormed s bs fl) (h' : WellFormed s bs' fl') : bs' = bs := by
  obtain ⟨rest, rfl⟩ := tags_unique h.tiled.1 h'.tiled
  have hcov := h.covers
  have hcov' := h'.covers
  simp only [total_append] at hcov'
  have hrest : rest = [] := eq_nil_of_total (by omega)
  rw [hrest, List.append_nil]

theorem WellFormed.same_words {s s' : Heap} {bs : List Block} {fl fl' : List Nat}
    (h : WellFormed s bs fl) (h' : WellFormed s' bs fl') (hb : s'.base = s.base) :
    (∀ x b, (x, b) ∈ placed s.base bs → s'.load x = s.load x ∧
      (b.alloc = false → s'.load (x + b.size - 8) = s.load (x + b.size - 8))) ∧
      s'.load (s.base + total bs) = s.load (s.base + total bs) := by
  have hend := h.tiled.2
  have hend' := h'.tiled.2
  rw [hb] at hend'
  refine ⟨fun x b hx => ?_, hend'.trans hend.symm⟩
  obtain ⟨pre, post, rfl, rfl⟩ := placed_split hx
  obtain ⟨-, hhead, hfoot, -⟩ := h.split
  obtain ⟨-, hhead', hfoot', -⟩ := h'.split
  rw [hb] at hhead' hfoot'
  exact ⟨hhead'.trans hhead.symm, fun hfree => (hfoot' hfree).trans (hfoot hfree).symm⟩

section
variable {s : Heap} {pre post : List Block} {b : Block} {fl : List Nat}
  (h : WellFormed s (pre ++ b :: post) fl) (hs : Separated (pre ++ b :: post))
include h hs

theorem separated_orderly : ¬ s.twoFreeBefore (s.base + total pre) := by
  rw [twoFreeBefore_iff_doubleGap h]
  exact hs.not_doubleGap

end

theorem merged_separated {near : Prop} {pre post pre' left post' right : List Block} {b f : Block}
    (hs : Separated (pre ++ b :: post)) (hf : f.alloc = false) (hp : MergesPrev pre pre' left)
    (hn : MergesNext near post post' right) :
    Separated (pre' ++ f :: post') ↔ ∀ d ∈ post.head?, d.alloc = false → near := by
  obtain ⟨hpre, hpost, -⟩ := separated_middle.mp hs
  have hleft : Separated pre' ∧ lastAlloc true pre' = true := by
    cases hp with
    | alone allocated => exact ⟨hpre, allocated⟩
    | @absorb _ c free =>
      obtain ⟨hpre', -, hlast⟩ := separated_append.mp hpre
      exact ⟨hpre', hlast.resolve_right (by simp [Fenced, free])⟩
  rw [separated_middle, hf]
  cases hn with
  | alone kept =>
    have hiff : Fenced post ↔ ∀ d ∈ post.head?, d.alloc = false → near := by
      refine forall₂_congr fun d hd => ?_
      have hkept := kept d hd
      cases hd : d.alloc
      · simpa using hkept hd
      · simp
    rw [← hiff]
    simp [hleft, hpost]
  | @absorb d _ free inside =>
    obtain ⟨hfence, hpost'⟩ := separated_cons.mp hpost
    have hfenced := hfence.resolve_left (by simp [free])
    simp [hleft, hpost', hfenced, inside]

end OperatingSystems.Malloc
