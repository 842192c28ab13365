import OperatingSystems.Driver.RangeTracking

namespace OperatingSystems.Driver
open LinkedTree.NodeTree SortedMap

namespace RangeSet
variable {ν π : Type} [DecidableEq π]

section
variable {s : RangeSet ν π} {b : Block} {p x : π} {prev : Option π}

@[simp] theorem linked_next : (s.linked b p prev).next x =
    if prev = some x then some p else if x = p then prev.bind s.next else s.next x := by
  simp [linked, createRange, Function.update_apply]

@[simp] theorem linked_prev : (s.linked b p prev).prev x =
    if prev.bind s.next = some x then some p else if x = p then prev else s.prev x := by
  simp [linked, createRange, Function.update_apply]

@[simp] theorem linked_lo : (s.linked b p prev).lo x = if x = p then b.lo else s.lo x := by
  simp [linked, createRange, Function.update_apply]

@[simp] theorem linked_hi : (s.linked b p prev).hi x = if x = p then b.hi else s.hi x := by
  simp [linked, createRange, Function.update_apply]

@[simp] theorem linked_live : (s.linked b p prev).live x = if x = p then true else s.live x := by
  simp [linked, createRange, Function.update_apply]

@[simp] theorem linked_list : (s.linked b p prev).list = if prev = none then some p else s.list := by
  simp [linked, createRange]

@[simp] theorem linked_loTree : (s.linked b p prev).loTree = s.loTree := by
  simp [linked, createRange]

end

section
variable [DecidableEq ν] [Fintype ν] {cut : Prop} {s : RangeSet ν π} {before behind : List π}
  {b : Block} {p : π}

theorem linked_joined (h : s.Tracked cut (before ++ behind)) (hp : p ∉ before ++ behind)
    (hcut : cut ∨ before ≠ [] ∨ behind = [])
    (hbefore : ∀ q, before.getLast? = some q → s.hi q < b.lo)
    (hnext : ∀ q, before.getLast?.bind s.next = some q → b.hi < s.lo q) :
    (left (before ++ p :: behind) ++ [none]).IsChain
      ((s.linked b p before.getLast?).Joined cut) := by
  obtain ⟨hleft, hright, hmid⟩ := (chain_split _ _).mp h.joined
  obtain ⟨hdb, hdh, hdisjoint⟩ := List.nodup_append.mp h.nodup
  have hlast (q : π) (hq : before.getLast? = some q) : q ∈ before := List.mem_of_getLast? hq
  have hfirst (q : π) (hq : behind.head? = some q) : q ∈ behind := List.mem_of_head? hq
  have hfollow (q : π) (hq : before.getLast?.bind s.next = some q) : behind.head? = some q :=
    hmid.follows hq
  have hne (q : π) (hq : q ∈ before ++ behind) : q ≠ p := fun h => hp (h ▸ hq)
  refine (chain_split _ _).mpr ⟨?_, (right_cons _ _).mpr ⟨?_, ?_⟩, ?_⟩
  · refine chain_left hleft hdb fun x y hx hy hj => hj.congr (fun q hq => ?_) fun q hq => ?_
    · obtain ⟨hmem, hlast⟩ := hx q hq
      simp [hlast, hne q (by simp [hmem])]
    · have hmem := hy q hq
      have hapart : before.getLast?.bind s.next ≠ some q := fun h =>
        hdisjoint q hmem q (hfirst q (hfollow q h)) rfl
      simp [hapart, hne q (by simp [hmem])]
  · have hnotlast : before.getLast? ≠ some p := fun h => hp (by simp [hlast p h])
    rcases hmid.following with hn | ⟨hn, hprev, hc⟩
    · cases hy : behind.head? with
      | none => simpa [Joined, hnotlast, hy] using hn
      | some q =>
        rw [hy] at hn
        have hqp : q ≠ p := hne q (by simp [hfirst q hy])
        exact .inl ⟨by simp [hnotlast, hn], by simp [hn], by simpa [hqp] using hnext q hn⟩
    · cases hy : behind.head? with
      | none => simpa [Joined, hnotlast] using hn
      | some q =>
        have hqp : q ≠ p := hne q (by simp [hfirst q hy])
        have hc : cut := by
          rcases hc with hc | hc
          · exact hc
          · rcases hcut with hcut | hcut | hcut
            · exact hcut
            · exact absurd (List.getLast?_eq_none_iff.mp hc) hcut
            · rw [hcut] at hy
              cases hy
        exact .inr ⟨hc, by simp [hnotlast, hn], by simp [hn, hqp, hprev q hy]⟩
  · refine chain_right hright hdh fun x y hx hy hj => hj.congr (fun q hq => ?_) fun q hq => ?_
    · have hmem := hx q hq
      have hapart : before.getLast? ≠ some q := fun h => hdisjoint q (hlast q h) q hmem rfl
      simp [hapart, hne q (by simp [hmem])]
    · obtain ⟨hmem, hfirst⟩ := hy q hq
      have hapart : before.getLast?.bind s.next ≠ some q := fun h => hfirst (hfollow q h)
      simp [hapart, hne q (by simp [hmem])]
  · have hnotnext : before.getLast?.bind s.next ≠ some p := fun h =>
      hp (by simp [hfirst p (hfollow p h)])
    cases hx : before.getLast? with
    | none => simp [Joined]
    | some q =>
      have hqp : q ≠ p := hne q (by simp [hlast q hx])
      have hnotnext : s.next q ≠ some p := fun h => hnotnext (by rw [hx]; exact h)
      exact .inl ⟨by simp, by simp [hnotnext], by simpa [hqp] using hbefore q hx⟩

theorem record_tracked {z : ν} (h : s.Tracked cut (before ++ behind)) (hp : s.live p = false)
    (hz : s.loTree.live z = false) (hcut : cut ∨ before ≠ [] ∨ behind = [])
    (hlow : ∀ q ∈ before, s.lo q < b.lo) (hhigh : ∀ q ∈ behind, b.lo < s.lo q)
    (hext : b.lo ≤ b.hi ∧ b.hi < 2 ^ 63)
    (hbefore : ∀ q, before.getLast? = some q → s.hi q < b.lo)
    (hnext : ∀ q, before.getLast?.bind s.next = some q → b.hi < s.lo q) :
    ∃ s', s.record b z p before.getLast? (before.getLast?.bind s.next) = some s' ∧
      s'.Tracked cut (before ++ p :: behind) ∧ s.Grown s' b := by
  have hp' : p ∉ before ++ behind := fun hmem => by
    rw [(h.live p).mpr hmem] at hp
    cases hp
  have hne (q : π) (hq : q ∈ before ++ behind) : q ≠ p := fun h => hp' (h ▸ hq)
  have hlink := linked_joined h hp' hcut hbefore hnext
  obtain ⟨-, -, hmid⟩ := (chain_split _ _).mp h.joined
  obtain ⟨t, ht, hentries⟩ := h.tree
  obtain ⟨t', u, hinsert, hu, hstored⟩ := Tree.treeInsert_spec ht hz (b.lo : Int) (some p)
  have hlow' : ∀ e ∈ before.map s.entry, e.1 < (b.lo : Int) := by simpa [entry] using hlow
  have hhigh' : ∀ e ∈ behind.map s.entry, (b.lo : Int) < e.1 := by simpa [entry] using hhigh
  have hlong : toLong b.lo = b.lo := toLong_small (by omega)
  refine ⟨{ s.linked b p before.getLast? with loTree := t' }, ?_, ⟨⟨u, hu, ?_⟩, ?_, fun q => ?_, ?_,
    ?_, fun hc => ?_⟩, fun q hq => ?_⟩
  · have hprevLive (q : π) (hq : before.getLast? = some q) :
        (s.createRange p b before.getLast? (before.getLast?.bind s.next)).live q = true := by
      have hlive := (h.live q).mpr (List.mem_append_left _ (List.mem_of_getLast? hq))
      simp [createRange, Function.update_apply, hlive]
    have hnextLive (q : π) (hq : before.getLast?.bind s.next = some q) :
        ((s.createRange p b before.getLast? (before.getLast?.bind s.next)).withNext
          before.getLast? (some p)).live q = true := by
      have hlive := (h.live q).mpr (List.mem_append_right _ (List.mem_of_head? (hmid.follows hq)))
      simp [createRange, Function.update_apply, hlive]
    rw [record, setNextOf_live _ _ _ hprevLive, Option.bind_eq_bind, Option.bind_some,
      setPrevOf_live _ _ _ hnextLive, Option.bind_eq_bind, Option.bind_some, hlong]
    change ((s.linked b p before.getLast?).loTree.treeInsert (b.lo : Int) (some p) z).bind _ = _
    rw [linked_loTree, hinsert]
    rfl
  · have hkeep (l : List π) (hl : ∀ q ∈ l, q ≠ p) :
        l.map (entry { s.linked b p before.getLast? with loTree := t' }) = l.map s.entry :=
      List.map_congr_left fun q hq => by simp [entry, hl q hq]
    have hnew : entry { s.linked b p before.getLast? with loTree := t' } p = ((b.lo : Int), some p) := by
      simp [entry]
    rw [hstored, hentries, List.map_append, lookup_none hlow' hhigh', Option.isNone_none, if_pos rfl,
      insert_between hlow' hhigh', List.map_append, List.map_cons, hnew,
      hkeep before fun q hq => hne q (List.mem_append_left _ hq),
      hkeep behind fun q hq => hne q (List.mem_append_right _ hq)]
  · obtain ⟨hsb, hsh, hsa⟩ := List.pairwise_append.mp h.sorted
    refine List.pairwise_append.mpr ⟨hsb.imp_of_mem ?_, List.pairwise_cons.mpr ⟨?_, hsh.imp_of_mem ?_⟩,
      ?_⟩
    · intro q r hq hr hlt
      simpa [hne q (by simp [hq]), hne r (by simp [hr])] using hlt
    · intro q hq
      simpa [hne q (by simp [hq])] using hhigh q hq
    · intro q r hq hr hlt
      simpa [hne q (by simp [hq]), hne r (by simp [hr])] using hlt
    · intro q hq r hr
      rcases List.mem_cons.mp hr with rfl | hr
      · simpa [hne q (by simp [hq])] using hlow q hq
      · simpa [hne q (by simp [hq]), hne r (by simp [hr])] using hsa q hq r hr
  · by_cases hq : q = p
    · simp [hq]
    · simpa [hq] using h.live q
  · intro q hq
    by_cases hqp : q = p
    · simpa [hqp] using hext
    · simpa [hqp] using h.extent q (by simpa [hqp] using hq)
  · exact hlink.imp fun x y hj => hj.congr (fun _ _ => ⟨rfl, rfl⟩) fun _ _ => ⟨rfl, rfl⟩
  · have hhead := h.head hc
    cases before with
    | nil => simp
    | cons q rest => simpa [List.getLast?_cons] using hhead
  · by_cases hqp : q = p
    · simp [hqp]
    · simp only [linked_live, if_neg hqp] at hq
      simp [hqp, hq]

theorem unlinked_joined (h : s.Tracked cut (before ++ p :: behind)) :
    (left (before ++ behind) ++ [none]).IsChain ((s.unlinked p).Joined cut) := by
  obtain ⟨hleft, hright, hmid⟩ := (chain_split _ _).mp h.joined
  obtain ⟨hnext, hright⟩ := (right_cons _ _).mp hright
  obtain ⟨hdb, hdh, hdisjoint⟩ := List.nodup_append.mp h.nodup
  obtain ⟨-, hdh⟩ := List.nodup_cons.mp hdh
  have hlast (q : π) (hq : before.getLast? = some q) : q ∈ before := List.mem_of_getLast? hq
  have hfirst (q : π) (hq : behind.head? = some q) : q ∈ behind := List.mem_of_head? hq
  have hp := (hmid : s.Joined cut before.getLast? (some p)).preceding
  have hn := hnext.succeeding
  have hprev (q : π) (hq : s.prev p = some q) : before.getLast? = some q :=
    (hmid : s.Joined cut before.getLast? (some p)).precedes hq
  have hfollow (q : π) (hq : s.next p = some q) : behind.head? = some q := hnext.follows hq
  refine (chain_split _ _).mpr ⟨?_, ?_, ?_⟩
  · refine chain_left hleft hdb fun x y hx hy hj => hj.congr (fun q hq => ?_) fun q hq => ?_
    · have hapart : s.prev p ≠ some q := fun h => (hx q hq).2 (hprev q h)
      simp [unlinked, hapart]
    · have hapart : s.next p ≠ some q := fun h =>
        hdisjoint q (hy q hq) q (by simp [hfirst q (hfollow q h)]) rfl
      simp [unlinked, hapart]
  · refine chain_right hright hdh fun x y hx hy hj => hj.congr (fun q hq => ?_) fun q hq => ?_
    · have hapart : s.prev p ≠ some q := fun h =>
        hdisjoint q (hlast q (hprev q h)) q (by simp [hx q hq]) rfl
      simp [unlinked, hapart]
    · have hapart : s.next p ≠ some q := fun h => (hy q hq).2 (hfollow q h)
      simp [unlinked, hapart]
  · have hextent := (h.extent p (by simp)).1
    cases hx : before.getLast? with
    | none =>
      have hfirstPrev : s.prev p = none := by
        rcases hp with ⟨hp, -⟩ | ⟨-, hp, -⟩
        · rw [hp, hx]
        · exact hp
      cases hy : behind.head? with
      | none => trivial
      | some c =>
        rcases hn with ⟨hn, -⟩ | ⟨-, hn, hc⟩
        · simp [Joined, unlinked, hn, hy, hfirstPrev]
        · simpa [Joined, unlinked, hn] using hc c hy
    | some a =>
      cases hy : behind.head? with
      | none =>
        have hlastNext : s.next p = none := by
          rcases hn with ⟨hn, -⟩ | ⟨-, hn, -⟩
          · rw [hn, hy]
          · exact hn
        rcases hp with ⟨hp, -⟩ | ⟨-, hp, ha⟩
        · simp [Joined, unlinked, hp, hx, hlastNext]
        · simpa [Joined, unlinked, hp, hlastNext] using ha a hx
      | some c =>
        rcases hp with ⟨hp, ha⟩ | ⟨hc, hp, ha⟩
        · rcases hn with ⟨hn, hb⟩ | ⟨hc, hn, hb⟩
          · have hlt : s.hi a < s.lo c := by
              have h₁ := (ha a hx).2
              have h₂ := (hb c hy).2
              omega
            simp [Joined, unlinked, hp, hn, hx, hy, hlt]
          · simp [Joined, unlinked, hp, hn, hx, hb c hy, hc]
        · rcases hn with ⟨hn, -⟩ | ⟨-, hn, hb⟩
          · simp [Joined, unlinked, hp, hn, hy, ha a hx, hc]
          · simp [Joined, unlinked, hp, hn, ha a hx, hb c hy, hc]

theorem removeRange_at {a : Nat} (h : s.Tracked cut (before ++ p :: behind)) (ha : toLong a = s.lo p) :
    ∃ s', s.removeRange a = some s' ∧ s'.Tracked cut (before ++ behind) ∧
      s.Shrunk s' (toLong a) := by
  obtain ⟨t, ht, hentries⟩ := h.tree
  obtain ⟨t', u, hremove, hu, hstored⟩ := Tree.treeRemove_spec ht (toLong a)
  obtain ⟨hsb, hsh, hsa⟩ := List.pairwise_append.mp h.sorted
  obtain ⟨hsp, hsh⟩ := List.pairwise_cons.mp hsh
  obtain ⟨-, hright, hmid⟩ := (chain_split _ _).mp h.joined
  obtain ⟨hnext, -⟩ := (right_cons _ _).mp hright
  have hpb : p ∉ before := fun hp => (List.nodup_append.mp h.nodup).2.2 p hp p (by simp) rfl
  have hph : p ∉ behind := (List.nodup_cons.mp (List.nodup_append.mp h.nodup).2.1).1
  have hlow : ∀ e ∈ before.map s.entry, e.1 < (s.lo p : Int) := by
    simpa [entry] using fun q hq => hsa q hq p (by simp)
  have hhigh : ∀ e ∈ behind.map s.entry, (s.lo p : Int) < e.1 := by simpa [entry] using hsp
  have hmap : (before ++ p :: behind).map s.entry =
      before.map s.entry ++ ((s.lo p : Int), some p) :: behind.map s.entry := by
    rw [List.map_append, List.map_cons]
    rfl
  have hlive : s.live p = true := (h.live p).mpr (by simp)
  have hprev (q : π) (hq : s.prev p = some q) : s.live q = true := by
    have hlast := (hmid : s.Joined cut before.getLast? (some p)).precedes hq
    exact (h.live q).mpr (List.mem_append_left _ (List.mem_of_getLast? hlast))
  have hfollow (q : π) (hq : s.next p = some q) : s.live q = true := by
    have hfirst := List.mem_of_head? (hnext.follows hq)
    exact (h.live q).mpr (List.mem_append_right _ (List.mem_cons_of_mem _ hfirst))
  have hjoined := unlinked_joined h
  rw [hentries, ha, hmap] at hremove hstored
  rw [lookup_at hlow, Option.join_some] at hremove
  rw [erase_at hlow hhigh] at hstored
  have hunlink : (unlinked { s with loTree := t' } p).live p = true := by simpa [unlinked] using hlive
  have htree : ((unlinked { s with loTree := t' } p).freed p).loTree = t' := by simp [unlinked, freed]
  refine ⟨(unlinked { s with loTree := t' } p).freed p, ?_, ⟨⟨u, by rw [htree]; exact hu, ?_⟩, ?_, fun q => ?_, ?_, ?_,
    fun hc => ?_⟩, fun q hq => ?_⟩
  · have hset := setNextOf_live { s with loTree := t' } (s.prev p) (s.next p) hprev
    have hset' := setPrevOf_live (withNext { s with loTree := t' } (s.prev p) (s.next p)) (s.next p)
      (s.prev p) (by simpa using hfollow)
    rw [removeRange, ha, hremove]
    simp only [Option.bind_eq_bind, Option.bind_some, deref_live (s := { s with loTree := t' }) hlive,
      hset, hset']
    exact free_live hunlink
  · have hentry : ((unlinked { s with loTree := t' } p).freed p).entry = s.entry := by
      funext q
      simp [entry, unlinked, freed]
    rw [htree, hstored, hentry, List.map_append]
  · have hlo : ((unlinked { s with loTree := t' } p).freed p).lo = s.lo := by simp [unlinked, freed]
    rw [hlo]
    exact List.pairwise_append.mpr ⟨hsb, hsh, fun q hq r hr => hsa q hq r (by simp [hr])⟩
  · by_cases hq : q = p
    · simp [hq, hpb, hph]
    · simpa [hq, unlinked] using h.live q
  · intro q hq
    have hmem : q ∈ before ++ p :: behind := by
      rcases List.mem_append.mp hq with hq | hq
      · exact List.mem_append_left _ hq
      · exact List.mem_append_right _ (List.mem_cons_of_mem _ hq)
    simpa [unlinked, freed] using h.extent q hmem
  · exact hjoined.imp fun x y hj =>
      hj.congr (fun _ _ => by simp [unlinked, freed]) fun _ _ => by simp [unlinked, freed]
  · have hhead := h.head hc
    have hp : s.prev p = before.getLast? := by
      rcases (hmid : s.Joined cut before.getLast? (some p)).preceding with ⟨hp, -⟩ | ⟨hcut, -⟩
      · exact hp
      · exact absurd hcut hc
    have hn : s.next p = behind.head? := by
      rcases hnext.succeeding with ⟨hn, -⟩ | ⟨hcut, -⟩
      · exact hn
      · exact absurd hcut hc
    cases before with
    | nil => simp [unlinked, freed, hp, hn]
    | cons q rest => simpa [unlinked, freed, hp, List.getLast?_cons] using hhead
  · by_cases hqp : q = p
    · simp [hqp] at hq
    · have hlive' : s.live q = true := by simpa [unlinked, hqp] using hq
      refine ⟨hlive', by simp [unlinked, freed], by simp [unlinked, freed], ?_⟩
      rw [ha]
      rcases List.mem_append.mp ((h.live q).mp hlive') with hmem | hmem
      · have hlt := hsa q hmem p (by simp)
        omega
      · have hlt := hsp q ((List.mem_cons.mp hmem).resolve_left hqp)
        omega

theorem removeRange_tracked {l : List π} (h : s.Tracked cut l) (a : Nat) :
    ∃ s' l', s.removeRange a = some s' ∧ s'.Tracked cut l' ∧ s.Shrunk s' (toLong a) := by
  by_cases hmem : ∃ p ∈ l, toLong a = s.lo p
  · obtain ⟨p, hp, ha⟩ := hmem
    obtain ⟨before, behind, rfl⟩ := List.append_of_mem hp
    obtain ⟨s', hs, ht⟩ := removeRange_at h ha
    exact ⟨s', _, hs, ht⟩
  · obtain ⟨t, ht, hentries⟩ := h.tree
    obtain ⟨t', u, hremove, hu, hstored⟩ := Tree.treeRemove_spec ht (toLong a)
    have hmissing : ∀ p ∈ l, (s.lo p : Int) ≠ toLong a := fun p hp h => hmem ⟨p, hp, h.symm⟩
    have hlookup : lookup (l.map s.entry) (toLong a) = none := by
      simp only [lookup, Option.map_eq_none_iff, List.find?_eq_none, List.mem_map, decide_eq_true_eq]
      rintro e ⟨p, hp, rfl⟩
      exact hmissing p hp
    have herase : erase (l.map s.entry) (toLong a) = l.map s.entry :=
      List.filter_eq_self.mpr (by simpa [entry] using hmissing)
    rw [hentries, hlookup, Option.join_none] at hremove
    rw [hentries, herase] at hstored
    refine ⟨{ s with loTree := t' }, l, by rw [removeRange, hremove]; rfl, ⟨⟨u, hu, hstored⟩, h.sorted,
      h.live, h.extent, ?_, h.head⟩, fun q hq => ⟨hq, rfl, rfl, hmissing q ((h.live q).mp hq)⟩⟩
    exact h.joined.imp fun x y hj => hj.congr (fun _ _ => ⟨rfl, rfl⟩) fun _ _ => ⟨rfl, rfl⟩

theorem resetRangeSet_tracked {l : List π} (h : s.Tracked cut l) :
    ∃ s', s.resetRangeSet = some s' ∧ s'.Tracked cut [] := by
  obtain ⟨t, ht, hentries⟩ := h.tree
  obtain ⟨records, t', hfree, hperm, hempty⟩ := Tree.treeFree_spec ht
  have hrecords : records.reduceOption.Perm l := by
    have hcells : (l.map some).reduceOption = l := by
      change (l.map some).filterMap id = l
      simp
    rw [hentries, List.map_map] at hperm
    rw [← hcells]
    exact hperm.filterMap id
  obtain ⟨s', hs, hlive⟩ := foldlM_free (s := s) (hrecords.nodup_iff.mpr h.nodup)
    fun p hp => (h.live p).mpr (hrecords.mem_iff.mp hp)
  refine ⟨{ s' with loTree := t'.treeNew, list := none }, ?_, ⟨nil, hempty, rfl⟩, List.Pairwise.nil,
    fun p => ?_, by simp, ?_, fun _ => rfl⟩
  · rw [resetRangeSet, hfree]
    simp [hs]
  · have hlive := hlive p
    rw [h.live p, hrecords.mem_iff] at hlive
    simpa using hlive
  · simp [left, Joined]

end

end RangeSet
end OperatingSystems.Driver
