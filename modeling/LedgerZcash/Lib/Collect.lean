import Mathlib.Tactic

/-!
# Traversals that stop at the first error

The rules by which a computation in `Except` is taken apart: a bind, a `mapM`, and
`collectM`, the loop that keeps what a fallible step returns and skips what it
declines.  A successful traversal is the pure traversal of the values its steps
returned, so a proof about a run that succeeded never looks at the error paths again.
-/

namespace LedgerZcash.Collect

universe u

variable {ε : Type u} {α : Type*} {β γ : Type u}

/-- A successful bind had a successful first stage. -/
theorem bind_eq_ok {x : Except ε β} {f : β → Except ε γ} {c : γ} :
    x >>= f = .ok c ↔ ∃ b, x = .ok b ∧ f b = .ok c := by
  cases x with
  | error e => simp [bind, Except.bind]
  | ok b => simp [bind, Except.bind]

theorem ok_bind {b : β} {f : β → Except ε γ} : Except.ok b >>= f = f b := rfl

theorem pure_eq_ok {b c : β} : (pure b : Except ε β) = .ok c ↔ b = c := by
  simp [pure, Except.pure]

theorem map_eq_ok {ε : Type*} {α β : Type u} {x : Except ε α} {f : α → β} {b : β} :
    x.map f = .ok b ↔ ∃ a, x = .ok a ∧ f a = b := by
  cases x <;> simp [Except.map]

theorem map_eq_error {ε : Type*} {α β : Type u} {x : Except ε α} {f : α → β} {e : ε} :
    x.map f = .error e ↔ x = .error e := by
  cases x <;> simp [Except.map]

theorem mapError_eq_ok {ε' : Type u} {f : ε → ε'} {x : Except ε β} {b : β} :
    x.mapError f = .ok b ↔ x = .ok b := by
  cases x <;> simp [Except.mapError]

theorem toOption_eq_some {x : Except ε β} {b : β} : x.toOption = some b ↔ x = .ok b := by
  cases x <;> simp [Except.toOption]

theorem exists_ok_of_isOk {x : Except ε β} (h : x.isOk = true) : ∃ b, x = .ok b := by
  cases x with
  | error e => cases h
  | ok b => exact ⟨b, rfl⟩

/-- A successful traversal is pointwise. -/
theorem mapM_eq_ok_iff {f : α → Except ε β} {l : List α} {r : List β} :
    l.mapM f = .ok r ↔ List.Forall₂ (fun a b ↦ f a = .ok b) l r := by
  induction l generalizing r with
  | nil => cases r <;> simp [pure, Except.pure]
  | cons a l ih =>
      rw [List.mapM_cons]
      constructor
      · intro h
        obtain ⟨b, hb, h⟩ := bind_eq_ok.mp h
        obtain ⟨bs, hbs, h⟩ := bind_eq_ok.mp h
        cases pure_eq_ok.mp h
        exact .cons hb (ih.mp hbs)
      · rintro (_ | ⟨hb, hbs⟩)
        exact bind_eq_ok.mpr ⟨_, hb, bind_eq_ok.mpr ⟨_, ih.mpr hbs, rfl⟩⟩

/-- Every element on the right has one on the left. -/
theorem exists_of_forall₂_right {α β : Type*} {R : α → β → Prop} {l : List α} {r : List β}
    (h : List.Forall₂ R l r) {b : β} (hb : b ∈ r) : ∃ a ∈ l, R a b := by
  induction h with
  | nil => cases hb
  | @cons a _ l _ hR _ ih =>
      rcases List.mem_cons.mp hb with rfl | hb
      · exact ⟨a, List.mem_cons_self, hR⟩
      · obtain ⟨a', ha', hR'⟩ := ih hb
        exact ⟨a', List.mem_cons_of_mem _ ha', hR'⟩

/-- Every index on the left has its partner on the right. -/
theorem exists_getElem?_of_forall₂ {α β : Type*} {R : α → β → Prop} {l : List α} {r : List β}
    (h : List.Forall₂ R l r) {i : Nat} {a : α} (ha : l[i]? = some a) :
    ∃ b, r[i]? = some b ∧ R a b := by
  induction h generalizing i with
  | nil => cases ha
  | cons hR _ ih =>
      cases i with
      | zero =>
          cases ha
          exact ⟨_, rfl, hR⟩
      | succ i => exact ih ha

/-- Two lists of one length, zipped, are related to the first when each pair is. -/
theorem forall₂_zipWith {α β γ : Type*} {R : α → γ → Prop} {f : α → β → γ} {l : List α}
    {r : List β} (hlen : l.length = r.length) (h : ∀ a ∈ l, ∀ b ∈ r, R a (f a b)) :
    List.Forall₂ R l (List.zipWith f l r) := by
  induction l generalizing r with
  | nil => exact .nil
  | cons a l ih =>
      cases r with
      | nil => cases hlen
      | cons b r =>
          exact .cons (h a List.mem_cons_self b List.mem_cons_self) (ih (Nat.succ.inj hlen)
            fun a' ha b' hb ↦ h a' (List.mem_cons_of_mem _ ha) b' (List.mem_cons_of_mem _ hb))

/-- A traversal whose every step succeeds is a `map`. -/
theorem mapM_eq_ok_map {f : α → Except ε β} {g : α → β} {l : List α}
    (h : ∀ a ∈ l, f a = .ok (g a)) : l.mapM f = .ok (l.map g) := by
  rw [mapM_eq_ok_iff, List.forall₂_map_right_iff, List.forall₂_same]
  exact h

/-- A traversal whose every step succeeds does. -/
theorem exists_mapM_eq_ok {f : α → Except ε β} {l : List α} (h : ∀ a ∈ l, ∃ b, f a = .ok b) :
    ∃ r, l.mapM f = .ok r := by
  induction l with
  | nil => exact ⟨[], rfl⟩
  | cons a l ih =>
      obtain ⟨⟨b, hb⟩, hl⟩ := List.forall_mem_cons.mp h
      obtain ⟨bs, hbs⟩ := ih hl
      rw [List.mapM_cons]
      exact ⟨b :: bs, bind_eq_ok.mpr ⟨b, hb, bind_eq_ok.mpr ⟨bs, hbs, rfl⟩⟩⟩

/-- Every element on the left has one on the right. -/
theorem exists_of_forall₂_left {α β : Type*} {R : α → β → Prop} {l : List α} {r : List β}
    (h : List.Forall₂ R l r) {a : α} (ha : a ∈ l) : ∃ b ∈ r, R a b := by
  obtain ⟨i, hi⟩ := List.mem_iff_getElem?.mp ha
  obtain ⟨b, hb, hR⟩ := exists_getElem?_of_forall₂ h hi
  exact ⟨b, List.mem_of_getElem? hb, hR⟩

/-- A successful traversal is undone by a traversal whose steps undo its steps. -/
theorem mapM_inverse {α β : Type u} {f : α → Except ε β} {g : β → Option α} {l : List α}
    {r : List β} (hinv : ∀ a ∈ l, ∀ b, f a = .ok b → g b = some a) (h : l.mapM f = .ok r) :
    r.mapM g = some l := by
  have hpairs := mapM_eq_ok_iff.mp h
  clear h
  induction hpairs with
  | nil => rfl
  | cons hab _ ih =>
      obtain ⟨hhead, htail⟩ := List.forall_mem_cons.mp hinv
      rw [List.mapM_cons, hhead _ hab, ih htail]
      rfl

/-- What is related to the pairs of two related lists is related to the first one. -/
theorem forall₂_of_zip {α β γ : Type*} {R : α → β → Prop} {T : α × β → γ → Prop} {l : List α}
    {r : List β} {s : List γ} (h : List.Forall₂ R l r) (hs : List.Forall₂ T (l.zip r) s) :
    List.Forall₂ (fun a c ↦ ∃ b, R a b ∧ T (a, b) c) l s := by
  induction h generalizing s with
  | nil =>
      cases hs
      exact .nil
  | cons hR _ ih =>
      rw [List.zip_cons_cons] at hs
      cases hs with
      | cons hT hs => exact .cons ⟨_, hR, hT⟩ (ih hs)

/-- Two relations, one after the other. -/
theorem forall₂_comp {α β γ : Type*} {R : α → β → Prop} {T : β → γ → Prop} {l : List α}
    {r : List β} {s : List γ} (h : List.Forall₂ R l r) (hs : List.Forall₂ T r s) :
    List.Forall₂ (fun a c ↦ ∃ b, R a b ∧ T b c) l s := by
  induction h generalizing s with
  | nil =>
      cases hs
      exact .nil
  | cons hR _ ih =>
      cases hs with
      | cons hT hs => exact .cons ⟨_, hR, hT⟩ (ih hs)

/-- What is kept of one list is what is kept of a related one. -/
theorem filterMap_eq_of_forall₂ {α β γ : Type*} {f : α → Option γ} {g : β → Option γ} {l : List α}
    {r : List β} (h : List.Forall₂ (fun a b ↦ f a = g b) l r) : l.filterMap f = r.filterMap g := by
  induction h with
  | nil => rfl
  | cons hfg _ ih => rw [List.filterMap_cons, List.filterMap_cons, hfg, ih]

/-- A traversal whose every step succeeds with a related result is pointwise related. -/
theorem exists_mapM_forall₂ {f : α → Except ε β} {P : α → β → Prop} {l : List α}
    (h : ∀ a ∈ l, ∃ b, f a = .ok b ∧ P a b) : ∃ r, l.mapM f = .ok r ∧ List.Forall₂ P l r := by
  induction l with
  | nil => exact ⟨[], rfl, .nil⟩
  | cons a l ih =>
      obtain ⟨⟨b, hb, hP⟩, hl⟩ := List.forall_mem_cons.mp h
      obtain ⟨bs, hbs, hall⟩ := ih hl
      rw [List.mapM_cons]
      exact ⟨b :: bs, bind_eq_ok.mpr ⟨b, hb, bind_eq_ok.mpr ⟨bs, hbs, rfl⟩⟩, .cons hP hall⟩

/-- What every step keeps of its argument, the traversal keeps of the list. -/
theorem map_eq_map_of_mapM {δ : Type*} {f : α → Except ε β} {g : β → δ} {k : α → δ} {l : List α}
    {r : List β} (h : l.mapM f = .ok r) (hk : ∀ a ∈ l, ∀ b, f a = .ok b → g b = k a) :
    r.map g = l.map k := by
  rw [mapM_eq_ok_iff] at h
  induction h with
  | nil => rfl
  | cons hab _ ih =>
      rw [List.map_cons, List.map_cons, hk _ List.mem_cons_self _ hab,
        ih fun a ha ↦ hk a (List.mem_cons_of_mem _ ha)]

/-- A traversal that meets no error but one stops with that one. -/
theorem mapM_eq_error {f : α → Except ε β} {l : List α} {a : α} {e : ε} (ha : a ∈ l)
    (hf : f a = .error e) (h : ∀ b ∈ l, (∃ c, f b = .ok c) ∨ f b = .error e) :
    l.mapM f = .error e := by
  induction l with
  | nil => exact absurd ha List.not_mem_nil
  | cons b l ih =>
      rw [List.mapM_cons]
      rcases h b List.mem_cons_self with ⟨c, hc⟩ | he
      · have hmem : a ∈ l := by
          rcases List.mem_cons.mp ha with rfl | hmem
          · exact absurd (hc.symm.trans hf) (by simp)
          · exact hmem
        rw [hc, ih hmem fun b hb ↦ h b (List.mem_cons_of_mem _ hb)]
        rfl
      · rw [he]
        rfl

/-- A traversal stops with the error of the first element that has one. -/
theorem mapM_eq_error_iff {f : α → Except ε β} {l : List α} {e : ε} :
    l.mapM f = .error e ↔ ∃ (i : Nat) (a : α), l[i]? = some a ∧ f a = .error e ∧
      ∀ j < i, ∀ a', l[j]? = some a' → ∃ b, f a' = .ok b := by
  induction l with
  | nil => simp [pure, Except.pure]
  | cons a l ih =>
      rw [List.mapM_cons]
      constructor
      · intro h
        cases hb : f a with
        | error e' =>
            rw [hb] at h
            cases h
            exact ⟨0, a, rfl, hb, fun j hj ↦ absurd hj (Nat.not_lt_zero j)⟩
        | ok b =>
            rw [hb, ok_bind] at h
            cases hl : l.mapM f with
            | ok bs =>
                rw [hl] at h
                cases h
            | error e' =>
                rw [hl] at h
                cases h
                obtain ⟨i, a', ha', herr, hbefore⟩ := ih.mp hl
                refine ⟨i + 1, a', ha', herr, fun j hj c hc ↦ ?_⟩
                cases j with
                | zero =>
                    cases hc
                    exact ⟨b, hb⟩
                | succ j => exact hbefore j (Nat.lt_of_succ_lt_succ hj) c hc
      · rintro ⟨i, a', ha', herr, hbefore⟩
        cases i with
        | zero =>
            cases ha'
            rw [herr]
            rfl
        | succ i =>
            obtain ⟨b, hb⟩ := hbefore 0 (Nat.succ_pos i) a rfl
            have hl := ih.mpr ⟨i, a', ha', herr, fun j hj ↦ hbefore (j + 1) (Nat.succ_lt_succ hj)⟩
            rw [hb, hl]
            rfl

/-- The rule for a loop with a state: what holds of the elements done and the state they
leave is kept by one round, so it holds of the whole list. -/
theorem foldlM_induction {σ : Type u} {f : σ → α → Except ε σ} {P : List α → σ → Prop} {s s' : σ}
    {l : List α} (h : l.foldlM f s = .ok s') (hs : P [] s)
    (step : ∀ done a t t', P done t → f t a = .ok t' → P (done ++ [a]) t') : P l s' := by
  suffices ∀ rest done t, P done t → rest.foldlM f t = .ok s' → P (done ++ rest) s' by
    simpa only [List.nil_append] using this l [] s hs h
  intro rest
  induction rest with
  | nil =>
      intro done t ht hf
      cases pure_eq_ok.mp hf
      simpa only [List.append_nil] using ht
  | cons a rest ih =>
      intro done t ht hf
      rw [List.foldlM_cons] at hf
      obtain ⟨t', ha, hf⟩ := bind_eq_ok.mp hf
      rw [List.append_cons]
      exact ih _ t' (step done a t t' ht ha) hf

/-- A loop whose rounds act on a view of the state acts on the view as a loop without
errors. -/
theorem foldlM_view {σ : Type u} {τ : Type*} {f : σ → α → Except ε σ} {v : σ → τ}
    {g : τ → α → τ} {s s' : σ} {l : List α} (h : l.foldlM f s = .ok s')
    (step : ∀ t a t', f t a = .ok t' → v t' = g (v t) a) : v s' = l.foldl g (v s) := by
  refine foldlM_induction (P := fun done t ↦ v t = done.foldl g (v s)) h rfl ?_
  intro done a t t' ht ha
  rw [step t a t' ha, ht, List.foldl_append, List.foldl_cons, List.foldl_nil]

/-- A loop that decodes each element before it acts on it has decoded them all. -/
theorem exists_of_foldlM_zipIdx {σ : Type u} (f : α → Except ε β)
    (act : σ → Nat → β → Except ε σ) {l : List α} {k : Nat} {s s' : σ}
    (h : (l.zipIdx k).foldlM (fun s x ↦ do
      let b ← f x.1
      act s x.2 b) s = .ok s') :
    ∃ bs, List.Forall₂ (fun a b ↦ f a = .ok b) l bs ∧
      (bs.zipIdx k).foldlM (fun s x ↦ act s x.2 x.1) s = .ok s' := by
  induction l generalizing k s with
  | nil => exact ⟨[], .nil, h⟩
  | cons a l ih =>
      rw [List.zipIdx_cons, List.foldlM_cons] at h
      obtain ⟨t, ht, h⟩ := bind_eq_ok.mp h
      obtain ⟨b, hb, ht⟩ := bind_eq_ok.mp ht
      obtain ⟨bs, hbs, hrest⟩ := ih h
      refine ⟨b :: bs, .cons hb hbs, ?_⟩
      rw [List.zipIdx_cons, List.foldlM_cons]
      exact bind_eq_ok.mpr ⟨t, ht, hrest⟩

/-- The loop that runs `f` on each element and keeps what it returns. -/
def collectM (f : α → Except ε (Option β)) : List α → Except ε (List β)
  | [] => pure []
  | a :: as => do
      let o ← f a
      let rest ← collectM f as
      pure (o.toList ++ rest)

/-- What a step returned, nothing when it failed. -/
def kept (f : α → Except ε (Option β)) (a : α) : Option β := (f a).toOption.join

theorem kept_of_ok {f : α → Except ε (Option β)} {a : α} {o : Option β} (h : f a = .ok o) :
    kept f a = o := by
  simp [kept, h, Except.toOption]

/-- A successful loop had no failing step, and keeps exactly what the steps returned. -/
theorem collectM_eq_ok_iff {f : α → Except ε (Option β)} {l : List α} {r : List β} :
    collectM f l = .ok r ↔ (∀ a ∈ l, ∃ o, f a = .ok o) ∧ r = l.filterMap (kept f) := by
  induction l generalizing r with
  | nil => simp [collectM, pure, Except.pure, eq_comm]
  | cons a l ih =>
      rw [collectM]
      constructor
      · intro h
        obtain ⟨o, ho, h⟩ := bind_eq_ok.mp h
        obtain ⟨rest, hr, h⟩ := bind_eq_ok.mp h
        cases pure_eq_ok.mp h
        obtain ⟨hl, rfl⟩ := ih.mp hr
        refine ⟨?_, ?_⟩
        · intro b hb
          rcases List.mem_cons.mp hb with rfl | hb
          · exact ⟨o, ho⟩
          · exact hl b hb
        · cases o <;> simp [kept_of_ok ho]
      · rintro ⟨hl, rfl⟩
        obtain ⟨o, ho⟩ := hl a List.mem_cons_self
        refine bind_eq_ok.mpr ⟨o, ho, bind_eq_ok.mpr ⟨_, ih.mpr ⟨fun b hb ↦ ?_, rfl⟩, ?_⟩⟩
        · exact hl b (List.mem_cons_of_mem _ hb)
        · cases o <;> simp [kept_of_ok ho, pure, Except.pure]

/-- A loop succeeds with the same answer when its steps do. -/
theorem collectM_mono {f g : α → Except ε (Option β)} (h : ∀ a o, f a = .ok o → g a = .ok o)
    {l : List α} {r : List β} (hr : collectM f l = .ok r) : collectM g l = .ok r := by
  obtain ⟨hall, rfl⟩ := collectM_eq_ok_iff.mp hr
  refine collectM_eq_ok_iff.mpr ⟨fun a ha ↦ (hall a ha).imp (h a), ?_⟩
  refine List.filterMap_congr fun a ha ↦ ?_
  obtain ⟨o, ho⟩ := hall a ha
  rw [kept_of_ok ho, kept_of_ok (h a o ho)]

/-- Every error that a computation can end with satisfies `P`. -/
def FailsOnly (P : ε → Prop) (x : Except ε β) : Prop := ∀ e, x = .error e → P e

namespace FailsOnly

variable {P : ε → Prop}

theorem ok (b : β) : FailsOnly P (.ok b) := fun _ h ↦ nomatch h

theorem pure (b : β) : FailsOnly P (Pure.pure b) := ok b

theorem error {e : ε} (h : P e) : FailsOnly P (.error e : Except ε β) := by
  rintro e' h'
  cases h'
  exact h

theorem bind {x : Except ε β} {f : β → Except ε γ} (hx : FailsOnly P x)
    (hf : ∀ b, FailsOnly P (f b)) : FailsOnly P (x >>= f) := by
  cases x with
  | error e => exact error (hx e rfl)
  | ok b => exact hf b

/-- Only what the first part returns matters for the second. -/
theorem bind_of_ok {x : Except ε β} {f : β → Except ε γ} (hx : FailsOnly P x)
    (hf : ∀ b, x = .ok b → FailsOnly P (f b)) : FailsOnly P (x >>= f) := by
  cases x with
  | error e => exact error (hx e rfl)
  | ok b => exact hf b rfl

theorem mapError_of {ε' : Type u} {Q : ε' → Prop} {f : ε' → ε} {x : Except ε' β}
    (hx : FailsOnly Q x) (h : ∀ e, Q e → P (f e)) : FailsOnly P (x.mapError f) := by
  cases x with
  | error e => exact error (h e (hx e rfl))
  | ok b => exact ok b

theorem mapError {ε' : Type u} {f : ε' → ε} {x : Except ε' β} (h : ∀ e, P (f e)) :
    FailsOnly P (x.mapError f) := by
  cases x with
  | error e => exact error (h e)
  | ok b => exact ok b

theorem ite {c : Prop} [Decidable c] {x y : Except ε β} (hx : FailsOnly P x)
    (hy : FailsOnly P y) : FailsOnly P (if c then x else y) := by
  split
  · exact hx
  · exact hy

theorem foldlM {σ : Type u} {f : σ → α → Except ε σ} (h : ∀ s a, FailsOnly P (f s a))
    (l : List α) (s : σ) : FailsOnly P (l.foldlM f s) := by
  induction l generalizing s with
  | nil => exact pure s
  | cons a l ih => exact bind (h s a) ih

theorem mapM {f : α → Except ε β} (h : ∀ a, FailsOnly P (f a)) (l : List α) :
    FailsOnly P (l.mapM f) := by
  induction l with
  | nil => exact pure []
  | cons a l ih =>
      rw [List.mapM_cons]
      exact bind (h a) fun b ↦ bind ih fun bs ↦ pure (b :: bs)

theorem collectM {f : α → Except ε (Option β)} (h : ∀ a, FailsOnly P (f a)) (l : List α) :
    FailsOnly P (Collect.collectM f l) := by
  induction l with
  | nil => exact pure []
  | cons a l ih => exact bind (h a) fun o ↦ bind ih fun rest ↦ pure (o.toList ++ rest)

end FailsOnly

/-- Labels that a filter map keeps are a sublist of the labels it started from. -/
theorem map_filterMap_sublist {α β γ : Type*} {f : α → Option β} {g : β → γ} {k : α → γ}
    (h : ∀ a b, f a = some b → g b = k a) (l : List α) :
    ((l.filterMap f).map g).Sublist (l.map k) := by
  induction l with
  | nil => exact List.Sublist.refl _
  | cons a l ih =>
      cases hf : f a with
      | none => simpa only [List.filterMap_cons, hf, List.map_cons] using ih.cons _
      | some b =>
          simpa only [List.filterMap_cons, hf, List.map_cons, h a b hf] using ih.cons_cons _

end LedgerZcash.Collect
