import Mathlib.Tactic

/-!
# Slots

A list of slots, each empty or holding a value.  The empty slots are listed by their
indices, in order (`emptySlots`); `fillSlots` puts a list of values into them, the `k`-th
value into the `k`-th empty slot, and changes no slot that holds a value.  Writing the
values at the listed indices one after the other does just that
(`foldl_set_emptySlots`), and reading the indices afterwards returns the values
(`map_getElem?_fillSlots`).  A loop that rewrites slot after slot is one pass over the
list (`foldl_modify_zipIdx`).
-/

namespace LedgerZcash.Slots

universe u

variable {α : Type u}

/-- The indices of the empty slots, in order. -/
def emptySlots (slots : List (Option α)) : List Nat :=
  (slots.zipIdx.filter fun x ↦ x.1.isNone).map Prod.snd

/-- The `k`-th value goes into the `k`-th empty slot. -/
def fillSlots : List (Option α) → List α → List (Option α)
  | none :: slots, v :: vs => some v :: fillSlots slots vs
  | some w :: slots, vs => some w :: fillSlots slots vs
  | slots, [] => slots
  | [], _ => []

section Empty

variable (slots : List (Option α))

@[simp] theorem emptySlots_nil : emptySlots ([] : List (Option α)) = [] := rfl

theorem emptySlots_cons_none :
    emptySlots (none :: slots) = 0 :: (emptySlots slots).map (· + 1) := by
  simp [emptySlots, List.zipIdx_succ, List.filter_map, Function.comp_def]

theorem emptySlots_cons_some (w : α) :
    emptySlots (some w :: slots) = (emptySlots slots).map (· + 1) := by
  simp [emptySlots, List.zipIdx_succ, List.filter_map, Function.comp_def]

/-- An index is listed when its slot is empty. -/
theorem mem_emptySlots {i : Nat} : i ∈ emptySlots slots ↔ slots[i]? = some none := by
  simp only [emptySlots, List.mem_map, List.mem_filter, Prod.exists, exists_eq_right,
    List.mem_zipIdx_iff_getElem?, Option.isNone_iff_eq_none]

/-- The indices are ascending. -/
theorem emptySlots_pairwise : (emptySlots slots).Pairwise (· < ·) := by
  induction slots with
  | nil => exact .nil
  | cons o slots ih =>
      have hmap : ((emptySlots slots).map (· + 1)).Pairwise (· < ·) :=
        List.pairwise_map.mpr (ih.imp fun h ↦ Nat.succ_lt_succ h)
      cases o with
      | none =>
          rw [emptySlots_cons_none]
          refine List.pairwise_cons.mpr ⟨fun i hi ↦ ?_, hmap⟩
          obtain ⟨j, -, rfl⟩ := List.mem_map.mp hi
          exact Nat.succ_pos j
      | some w =>
          rw [emptySlots_cons_some]
          exact hmap

end Empty

section Fill

@[simp] theorem fillSlots_none (slots : List (Option α)) (v : α) (vs : List α) :
    fillSlots (none :: slots) (v :: vs) = some v :: fillSlots slots vs := rfl

@[simp] theorem fillSlots_some (slots : List (Option α)) (w : α) (vs : List α) :
    fillSlots (some w :: slots) vs = some w :: fillSlots slots vs := by
  cases vs <;> rfl

@[simp] theorem fillSlots_nil (slots : List (Option α)) : fillSlots slots [] = slots := by
  induction slots with
  | nil => rfl
  | cons o slots ih =>
      cases o with
      | none => rfl
      | some w => rw [fillSlots_some, ih]

@[simp] theorem length_fillSlots (slots : List (Option α)) (vs : List α) :
    (fillSlots slots vs).length = slots.length := by
  induction slots generalizing vs with
  | nil => cases vs <;> rfl
  | cons o slots ih =>
      cases o with
      | none => cases vs <;> simp [ih]
      | some w => simp [ih]

/-- A slot that holds a value keeps it. -/
theorem getElem?_fillSlots_of_some {slots : List (Option α)} {i : Nat} {w : α}
    (h : slots[i]? = some (some w)) (vs : List α) : (fillSlots slots vs)[i]? = some (some w) := by
  induction slots generalizing i vs with
  | nil => cases h
  | cons o slots ih =>
      cases i with
      | zero =>
          cases h
          rw [fillSlots_some]
          rfl
      | succ i =>
          cases o with
          | none =>
              cases vs with
              | nil => rwa [fillSlots_nil]
              | cons v vs => exact ih h vs
          | some w' =>
              rw [fillSlots_some]
              exact ih h vs

/-- The indices of the empty slots hold the values, in order. -/
theorem map_getElem?_fillSlots {slots : List (Option α)} {vs : List α}
    (h : vs.length = (emptySlots slots).length) :
    (emptySlots slots).map (fun i ↦ (fillSlots slots vs)[i]?) =
      vs.map fun v ↦ some (some v) := by
  induction slots generalizing vs with
  | nil =>
      cases List.length_eq_zero_iff.mp h
      rfl
  | cons o slots ih =>
      cases o with
      | none =>
          rw [emptySlots_cons_none] at h ⊢
          cases vs with
          | nil => cases h
          | cons v vs =>
              have hlen : vs.length = (emptySlots slots).length := by simpa using h
              rw [List.map_cons, List.map_map, List.map_cons, ← ih hlen]
              rfl
      | some w =>
          rw [emptySlots_cons_some] at h ⊢
          have hlen : vs.length = (emptySlots slots).length := by simpa using h
          rw [List.map_map, ← ih hlen, fillSlots_some]
          rfl

/-- The `k`-th empty slot gets the `k`-th value. -/
theorem getElem?_fillSlots_of_none {slots : List (Option α)} {vs : List α} {k i : Nat}
    (h : vs.length = (emptySlots slots).length) (hi : (emptySlots slots)[k]? = some i) :
    ∃ v, vs[k]? = some v ∧ (fillSlots slots vs)[i]? = some (some v) := by
  have hk := congrArg (fun l ↦ l[k]?) (map_getElem?_fillSlots h)
  simp only [List.getElem?_map, hi, Option.map_some] at hk
  cases hv : vs[k]? with
  | none => simp [hv] at hk
  | some v => exact ⟨v, rfl, by simpa [hv] using hk⟩

/-- Writing the values at the indices of the empty slots, one after the other, fills them. -/
theorem foldl_set_emptySlots (slots : List (Option α)) (vs : List α) :
    ((emptySlots slots).zip vs).foldl (fun s x ↦ s.set x.1 (some x.2)) slots =
      fillSlots slots vs := by
  have hshift : ∀ (o : Option α) (l : List (Nat × α)) (s : List (Option α)),
      (l.map fun x ↦ (x.1 + 1, x.2)).foldl (fun s x ↦ s.set x.1 (some x.2)) (o :: s) =
        o :: l.foldl (fun s x ↦ s.set x.1 (some x.2)) s := by
    intro o l
    induction l with
    | nil => exact fun _ ↦ rfl
    | cons x l ih => exact fun s ↦ ih _
  induction slots generalizing vs with
  | nil => cases vs <;> rfl
  | cons o slots ih =>
      cases o with
      | none =>
          cases vs with
          | nil => simp
          | cons v vs =>
              have hzip : ((emptySlots slots).map (· + 1)).zip vs =
                  ((emptySlots slots).zip vs).map fun x ↦ (x.1 + 1, x.2) :=
                List.zip_map_left
              rw [emptySlots_cons_none, List.zip_cons_cons, List.foldl_cons, hzip]
              exact (hshift _ _ _).trans (by rw [ih, fillSlots_none])
      | some w =>
          have hzip : ((emptySlots slots).map (· + 1)).zip vs =
              ((emptySlots slots).zip vs).map fun x ↦ (x.1 + 1, x.2) := List.zip_map_left
          rw [emptySlots_cons_some, hzip]
          exact (hshift _ _ _).trans (by rw [ih, fillSlots_some])

end Fill

/-! ## Every slot once -/

section Every

variable {β : Type u}

/-- A view of the slots is rewritten where they are. -/
theorem map_modify {γ : Type*} {f : β → β} {view : β → γ} {g : γ → γ}
    (h : ∀ b, view (f b) = g (view b)) (slots : List β) (n : Nat) :
    (slots.modify n f).map view = (slots.map view).modify n g := by
  apply List.ext_getElem?
  intro k
  rw [List.getElem?_map, List.getElem?_modify, List.getElem?_modify, List.getElem?_map]
  cases slots[k]? with
  | none => rfl
  | some b =>
      by_cases hk : n = k
      · simp [hk, h]
      · simp [hk]

/-- Rewriting the slot behind a prefix. -/
theorem modify_length_append (f : β → β) (done : List β) (b : β) (rest : List β) :
    (done ++ b :: rest).modify done.length f = done ++ f b :: rest := by
  induction done with
  | nil => rfl
  | cons c done ih => exact congrArg (c :: ·) ih

/-- Rewriting every slot, one after the other, is one pass over the list. -/
theorem foldl_modify_zipIdx (f : α → β → β) {l : List α} {slots : List β}
    (h : l.length = slots.length) :
    l.zipIdx.foldl (fun s x ↦ s.modify x.2 (f x.1)) slots = List.zipWith f l slots := by
  suffices ∀ (done : List β), (l.zipIdx done.length).foldl (fun s x ↦ s.modify x.2 (f x.1))
      (done ++ slots) = done ++ List.zipWith f l slots from this []
  induction l generalizing slots with
  | nil =>
      intro done
      cases List.length_eq_zero_iff.mp h.symm
      rfl
  | cons a l ih =>
      intro done
      cases slots with
      | nil => cases h
      | cons b slots =>
          have hlen : l.length = slots.length := Nat.succ.inj h
          rw [List.zipIdx_cons, List.foldl_cons, modify_length_append, List.append_cons]
          have hrest := ih hlen (done ++ [f a b])
          rw [List.length_append, List.length_singleton] at hrest
          rw [hrest, List.zipWith_cons_cons, List.append_assoc, List.singleton_append]

/-- Writing every slot leaves the values written. -/
theorem foldl_set_zipIdx {l : List α} {slots : List (Option α)} (h : l.length = slots.length) :
    l.zipIdx.foldl (fun s x ↦ s.set x.2 (some x.1)) slots = l.map some := by
  have hset : ∀ (s : List (Option α)) (x : α × Nat), s.set x.2 (some x.1) =
      s.modify x.2 fun _ ↦ some x.1 := fun s x ↦ List.set_eq_modify _ _ _
  simp only [hset]
  rw [foldl_modify_zipIdx (fun a _ ↦ some a) h]
  have hfst : (l.zip slots).map Prod.fst = l := List.map_fst_zip h.le
  rw [← List.map_uncurry_zip_eq_zipWith, ← congrArg (List.map some) hfst, List.map_map]
  rfl

/-- Writing one value into every slot. -/
theorem foldl_set_range (v : α) (slots : List (Option α)) :
    (List.range slots.length).foldl (fun s i ↦ s.set i (some v)) slots =
      List.replicate slots.length (some v) := by
  have hlen : (List.replicate slots.length v).length = slots.length := List.length_replicate
  have hrange : List.range slots.length =
      (List.replicate slots.length v).zipIdx.map Prod.snd := by
    rw [List.zipIdx_map_snd, hlen, List.range_eq_range']
  have hall := foldl_set_zipIdx hlen
  rw [List.map_replicate] at hall
  rw [hrange, List.foldl_map, ← hall]
  refine List.foldl_ext _ _ _ fun s x hx ↦ ?_
  rw [List.eq_of_mem_replicate (List.fst_mem_of_mem_zipIdx hx)]

end Every

end LedgerZcash.Slots
