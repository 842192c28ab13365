import OperatingSystems.Concurrency.Handshake

namespace OperatingSystems.Concurrency
open Channel Transition

variable {τ χ α : Type}

def Pc.done : Pc χ → Option (Op χ × Status)
  | .notify o => some (o, .success)
  | .signal o => some (o, .success)
  | .cleanup _ o st => some (o, st)
  | .ret (some o) st => some (o, st)
  | _ => none

def Move.done (o : Op χ) : Move α → Option (Op χ × Status)
  | .transfer _ _ => some (o, .success)
  | .refuse => if o.mode = .select then none else some (o, .channelFull)
  | .closed => some (o, .closedError)
  | .exchange => some (o, .success)
  | .complete => some (o, .success)
  | _ => none

@[simp] theorem leave_done (o : Op χ) (st : Status) : (o.leave st).done = some (o, st) := by
  rcases leave_cases o st with ⟨-, h⟩ | ⟨-, h⟩ <;> rw [h] <;> rfl

@[simp] theorem scanAt_done (s : State τ χ α) (t : τ) (i : Nat) : (s.scanAt t i).done = none := by
  rcases scanAt_cases s t i with ⟨e, -, h⟩ | ⟨-, h⟩ <;> rw [h] <;> rfl

theorem refused_done (s : State τ χ α) (t : τ) (o : Op χ) :
    (s.refused t o).done = (Move.refuse : Move α).done o := by
  rcases refused_cases s t o with ⟨hm, h⟩ | ⟨hm, h⟩
  · rw [h]
    exact (if_neg hm).symm
  · rw [h, scanAt_done]
    exact (if_pos hm).symm

theorem leave_ne_idle (o : Op χ) (st : Status) : o.leave st ≠ .idle := by
  rcases leave_cases o st with ⟨-, h⟩ | ⟨-, h⟩ <;> simp [h]

theorem scanAt_ne_idle (s : State τ χ α) (t : τ) (i : Nat) : s.scanAt t i ≠ .idle := by
  rcases scanAt_cases s t i with ⟨e, -, h⟩ | ⟨-, h⟩ <;> simp [h]

theorem refused_ne_idle (s : State τ χ α) (t : τ) (o : Op χ) : s.refused t o ≠ .idle := by
  rcases refused_cases s t o with ⟨-, h⟩ | ⟨-, h⟩ <;> simp [h, scanAt_ne_idle]

theorem start_ne_idle [DecidableEq τ] (s : State τ χ α) (t : τ) (k : Call χ α) :
    (s.start t k).pc t ≠ .idle := by
  rcases start_cases s t k with ⟨o, -, h⟩ | h | h | ⟨c, h⟩ <;> simp [h]

theorem start_done [DecidableEq τ] (s : State τ χ α) (t : τ) (k : Call χ α) :
    ((s.start t k).pc t).done = none := by
  rcases start_cases s t k with ⟨o, -, h⟩ | h | h | ⟨c, h⟩ <;> rw [h] <;> rfl

section
variable {κ β : Type} (weight : Label τ χ α → κ → List β)

def tally (tr : List (Event (State τ χ α) (Action τ χ α) (Label τ χ α))) (k : κ) : List β :=
  (seen tr).flatMap (weight · k)

@[simp] theorem tally_nil (k : κ) : tally weight [] k = [] := rfl

@[simp] theorem tally_snoc (tr : List (Event (State τ χ α) (Action τ χ α) (Label τ χ α)))
    (e : Event (State τ χ α) (Action τ χ α) (Label τ χ α)) (k : κ) :
    tally weight (tr ++ [e]) k = tally weight tr k ++ weight e.seen k := by
  simp [tally]

end

-- what the labels say of call `n` of `t` is what its state owes, until it has returned
structure Tally {β : Type} (weight : Label τ χ α → τ × Nat → List β)
    (owed : State τ χ α → τ → List β)
    (tr : List (Event (State τ χ α) (Action τ χ α) (Label τ χ α))) (s : State τ χ α) : Prop where
  fresh : ∀ t n, s.calls t < n → tally weight tr (t, n) = []
  current : ∀ t, s.pc t ≠ .idle → tally weight tr (t, s.calls t) = owed s t
  past : ∀ e ∈ tr, ∀ t n o st, e.seen = .returned t n o st →
    (n < s.calls t ∨ n = s.calls t ∧ s.pc t = .idle) ∧
      tally weight tr (t, n) = owed e.before t ∧ e.before.pc t = .ret o st

theorem Tally.start {β : Type} {weight : Label τ χ α → τ × Nat → List β}
    {owed : State τ χ α → τ → List β} {size : χ → Nat}
    {s : State τ χ α} (h : Init size s) : Tally weight owed [] s :=
  ⟨fun _ _ _ => rfl, fun t ht => absurd (h.pc t) ht, fun e he => by cases he⟩

variable [DecidableEq τ] [DecidableEq χ] [Fintype τ] {size : χ → Nat} {s s' : State τ χ α}
  {a : Action τ χ α} {l : Label τ χ α}

inductive Progress (s : State τ χ α) (t : τ) :
    Action τ χ α → Label τ χ α → State τ χ α → Prop
  | called (k : Call χ α) (pc : s.pc t = .idle) :
      Progress s t (.call t k) (.called t (s.calls t + 1) k) (s.start t k)
  | returned (wake : τ → Bool) (o : Option (Op χ)) (st : Status) (pc : s.pc t = .ret o st) :
      Progress s t (.run t wake) (.returned t (s.calls t) o st) (s.goto t .idle)
  | critical (wake : τ → Bool) (p : Point) (o : Op χ) (m : Move α) (l : Label τ χ α)
      (s' : State τ χ α) (pc : s.pc t = .enter p o) (admitted : s.admitted t o.chan p)
      (outcome : Outcome ((s.chan o.chan).arrive o.dir p) o (s.data t o.index) p m)
      (acted : Acted s t o ((s.chan o.chan).arrive o.dir p)
        (((s.chan o.chan).arrive o.dir p).after t o m) m l s') :
      Progress s t (.run t wake) l s'
  | inner (a : Action τ χ α) (l : Label τ χ α) (s' : State τ χ α) (pc : s.pc t ≠ .idle)
      (pc' : s'.pc t ≠ .idle) (done : (s'.pc t).done = (s.pc t).done)
      (label : l = .tau ∨ ∃ c, l = .shut t (s.calls t) c) (calls : s'.calls = s.calls)
      (data : s'.data = s.data) (entries : s'.entries = s.entries) : Progress s t a l s'

theorem stepped_progress (h : Stepped s a l s') : Progress s a.actor a l s' := by
  cases h with
  | call t k hpc => exact .called k hpc
  | spurious t w o hpc => exact .inner _ _ _ (by simp [hpc]) (by simp [hpc]) rfl (.inl rfl) rfl rfl rfl
  | critical t wake p o m l s' hpc hadm hout hact => exact .critical wake p o m l s' hpc hadm hout hact
  | ret t wake o st hpc => exact .returned wake o st hpc
  | close t wake c hpc =>
    exact .inner _ _ _ (by simp [hpc]) (by simp) (by simp [hpc, Pc.done]) (.inr ⟨c, rfl⟩) rfl rfl rfl
  | closeNotify t wake d c hpc =>
    refine .inner _ _ _ (by simp [hpc]) ?_ ?_ (.inl rfl) rfl rfl rfl <;>
      cases d <;> simp [hpc, Pc.done]
  | closeBroadcast t wake k c hpc =>
    refine .inner _ _ _ (by simp [hpc]) ?_ ?_ (.inl rfl) rfl rfl rfl <;>
      cases k <;> simp [hpc, Pc.done, Cond.nextInClose]
  | signal t wake o hpc =>
    refine .inner _ _ _ (by simp [hpc]) ?_ ?_ (.inl rfl) ?_ ?_ ?_
    · simpa using leave_ne_idle o .success
    · simp [hpc]
      rfl
    all_goals simp
  | registered t wake i hpc | semWait t wake hpc =>
    refine .inner _ _ _ (by simp [hpc]) ?_ ?_ (.inl rfl) rfl rfl rfl
    · simpa using scanAt_ne_idle s t 0
    · simp [hpc]
      rfl
  | publish t wake o hpc | notify t wake o hpc | closeAgain t wake c hpc | register t wake i e hpc
  | cleanup t wake i o st e hpc | cleaned t wake i o st hpc =>
    refine .inner _ _ _ (by simp [hpc]) ?_ ?_ (.inl rfl) rfl rfl rfl <;>
      simp [hpc, Pc.done, State.addSelect, State.removeSelect]

section
variable {t : τ} {o : Op χ} {m : Move α} {ch left : Channel τ α}

theorem acted_done (h : Acted s t o ch left m l s') : (s'.pc t).done = m.done o := by
  rw [acted_pc h, Function.update_self]
  cases m with
  | refuse => exact refused_done s t o
  | closed | exchange | complete => exact leave_done o _
  | _ => rfl

theorem acted_ne_idle (h : Acted s t o ch left m l s') : s'.pc t ≠ .idle := by
  rw [acted_pc h, Function.update_self]
  cases m with
  | refuse => exact refused_ne_idle s t o
  | closed | exchange | complete => exact leave_ne_idle o _
  | _ => simp [Op.next]

end

theorem stepped_calls (h : Stepped s a l s') (t : τ) : s.calls t ≤ s'.calls t ∧
    (s.pc t = .idle → s'.pc t ≠ .idle → s'.calls t = s.calls t + 1) ∧
    (s.pc t ≠ .idle → s'.calls t = s.calls t) ∧ (s'.pc t = .idle → s'.calls t = s.calls t) := by
  by_cases hu : t = a.actor
  · have hp := stepped_progress h
    rw [← hu] at hp
    cases hp with
    | called k hpc => simp [hpc, start_ne_idle]
    | returned wake o st hpc => simp
    | critical wake p o m l s' hpc hadm hout hact => simp [acted_calls hact, hpc]
    | inner a l s' hpc hpc' hdone hl hc => simp [hc, hpc]
  · have hf := stepped_frame h
    rw [hf.calls t hu, hf.pc t hu]
    exact ⟨le_rfl, fun h h' => absurd h h', fun _ => rfl, fun _ => rfl⟩

theorem stepped_returned {t : τ} {n : Nat} {o : Option (Op χ)} {st : Status}
    (h : Stepped s a (.returned t n o st) s') :
    n = s.calls t ∧ s.pc t = .ret o st ∧ s' = s.goto t .idle := by
  have hp := stepped_progress h
  generalize a.actor = u, hl : Label.returned t n o st = l at hp
  cases hp with
  | called k hpc => cases hl
  | returned wake o st hpc => cases hl; exact ⟨rfl, hpc, rfl⟩
  | critical wake p o' m l s' hpc hadm hout hact =>
    subst hl
    rcases acted_label hact with hl | hl <;> cases hl
  | inner a l s' hpc hpc' hdone hlabel => rcases hlabel with rfl | ⟨c, rfl⟩ <;> cases hl

theorem stepped_to_idle {t : τ} (h : Stepped s a l s') (hpc : s.pc t ≠ .idle)
    (hidle : s'.pc t = .idle) : ∃ o st, l = .returned t (s.calls t) o st := by
  by_cases ht : t = a.actor
  · have hp := stepped_progress h
    rw [← ht] at hp
    cases hp with
    | called k hpc' => exact absurd hpc' hpc
    | returned wake o st hpc' => exact ⟨o, st, rfl⟩
    | critical wake p o m l s' hpc' hadm hout hact => exact absurd hidle (acted_ne_idle hact)
    | inner a l s' hne hne' => exact absurd hidle hne'
  · rw [(stepped_frame h).pc t ht] at hidle
    exact absurd hidle hpc

theorem Tally.step {β : Type} {weight : Label τ χ α → τ × Nat → List β}
    {owed : State τ χ α → τ → List β}
    {tr : List (Event (State τ χ α) (Action τ χ α) (Label τ χ α))} (ht : Tally weight owed tr s)
    (h : Stepped s a l s')
    (touches : ∀ t n, weight l (t, n) ≠ [] → n = s.calls t ∧ s.pc t ≠ .idle ∧ s'.pc t ≠ .idle)
    (opens : ∀ t, s.pc t = .idle → s'.pc t ≠ .idle → owed s' t = [])
    (owes : ∀ t, s.pc t ≠ .idle → s'.pc t ≠ .idle →
      owed s' t = owed s t ++ weight l (t, s.calls t)) :
    Tally weight owed (tr ++ [⟨s, a, l⟩]) s' := by
  have hcalls := stepped_calls h
  have quiet : ∀ t n, n ≠ s.calls t ∨ s.pc t = .idle ∨ s'.pc t = .idle → weight l (t, n) = [] := by
    intro t n hn
    by_contra hw
    obtain ⟨h₁, h₂, h₃⟩ := touches t n hw
    rcases hn with hn | hn | hn
    · exact hn h₁
    · exact h₂ hn
    · exact h₃ hn
  refine ⟨fun t n hn => ?_, fun t hpc => ?_, fun e he t n o st hseen => ?_⟩
  · have hle := (hcalls t).1
    rw [tally_snoc, ht.fresh t n (by omega), quiet t n (.inl (by omega)), List.append_nil]
  · rw [tally_snoc]
    by_cases hidle : s.pc t = .idle
    · have hnext := (hcalls t).2.1 hidle hpc
      rw [hnext, ht.fresh t _ (by omega), quiet t _ (.inl (by omega)), opens t hidle hpc,
        List.append_nil]
    · rw [(hcalls t).2.2.1 hidle, ht.current t hidle, owes t hidle hpc]
  · rw [tally_snoc]
    rcases List.mem_append.mp he with he | he
    · obtain ⟨hlate, htally, hret⟩ := ht.past e he t n o st hseen
      refine ⟨?_, ?_, hret⟩
      · rcases hlate with hlt | ⟨heq, hidle⟩
        · exact .inl (hlt.trans_le (hcalls t).1)
        · by_cases hpc : s'.pc t = .idle
          · exact .inr ⟨heq.trans ((hcalls t).2.2.2 hpc).symm, hpc⟩
          · exact .inl (by have := (hcalls t).2.1 hidle hpc; omega)
      · rw [htally, quiet t n ?_, List.append_nil]
        rcases hlate with hlt | ⟨-, hidle⟩
        · exact .inl (by omega)
        · exact .inr (.inl hidle)
    · cases List.mem_singleton.mp he
      dsimp only at hseen
      subst hseen
      obtain ⟨rfl, hpc, rfl⟩ := stepped_returned h
      refine ⟨.inr ⟨rfl, by simp⟩, ?_, hpc⟩
      rw [quiet t _ (.inr (.inr (by simp))), List.append_nil]
      exact ht.current t (by simp [hpc])

end OperatingSystems.Concurrency
