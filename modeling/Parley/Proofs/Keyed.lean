import Mathlib.Data.List.Nodup
import Mathlib.Data.List.Perm.Basic

/-! Lists whose entries have keys of their own.

Tasks are kept in lists and named by a number. One is looked up by its number, put back changed,
or taken out, and the others are left alone. Up to order each of these is something done to the
head of a list with the same rest: `perm_cons`, `perm_set`. -/
namespace Parley.Keyed

variable {α : Type} {k : α → Nat} {xs : List α} {x y : α} {f : α → α} {n m : Nat}

theorem mem_of_find? (h : xs.find? (k · == n) = some x) : x ∈ xs ∧ k x = n :=
  ⟨List.mem_of_find?_eq_some h, by simpa using List.find?_some h⟩

theorem eq_of_mem (hxs : (xs.map k).Nodup) (hx : x ∈ xs) (hy : y ∈ xs) (h : k x = k y) :
    x = y :=
  List.inj_on_of_nodup_map hxs hx hy h

theorem find?_of_mem (hxs : (xs.map k).Nodup) (hx : x ∈ xs) :
    xs.find? (k · == k x) = some x := by
  cases h : xs.find? (k · == k x) with
  | none => exact absurd (List.find?_eq_none.mp h x hx) (by simp)
  | some y =>
    obtain ⟨hy, hkey⟩ := mem_of_find? h
    rw [eq_of_mem hxs hy hx hkey]

/-- Changing the entry of a key is changing the head of a list. -/
theorem perm_map (hxs : (xs.map k).Nodup) (hx : x ∈ xs) (f : α → α) :
    (xs.map fun y => if k y = k x then f y else y).Perm
      (f x :: xs.filter (k · != k x)) := by
  induction xs with
  | nil => cases hx
  | cons y ys ih =>
    obtain ⟨hy, hys⟩ := List.nodup_cons.mp hxs
    by_cases h : k y = k x
    · obtain rfl : y = x := eq_of_mem hxs List.mem_cons_self hx h
      have hne : ∀ z ∈ ys, k z ≠ k y := fun z hz heq => hy (List.mem_map.mpr ⟨z, hz, heq⟩)
      have hmap : (ys.map fun z => if k z = k y then f z else z) = ys :=
        (List.map_congr_left fun z hz => if_neg (hne z hz)).trans (List.map_id ys)
      have hfilter : ys.filter (k · != k y) = ys :=
        List.filter_eq_self.mpr fun z hz => by simp [hne z hz]
      rw [List.map_cons, List.filter_cons, hmap, hfilter]
      simp
    · have hx' : x ∈ ys := (List.mem_cons.mp hx).resolve_left fun heq => h (heq ▸ rfl)
      rw [List.map_cons, List.filter_cons]
      simp only [bne_iff_ne, ne_eq, h, not_false_eq_true, if_true]
      exact ((ih hys hx').cons y).trans (.swap _ _ _)

/-- A list is any of its entries and the others. -/
theorem perm_cons (hxs : (xs.map k).Nodup) (hx : x ∈ xs) :
    xs.Perm (x :: xs.filter (k · != k x)) := by
  have hid := perm_map hxs hx id
  simpa using hid

/-- Putting an entry in the place of another is putting it at the head. -/
theorem perm_set (hxs : (xs.map k).Nodup) (hx : x ∈ xs) (hkey : k y = k x) :
    (xs.map fun z => if k z = k y then y else z).Perm
      (y :: xs.filter (k · != k x)) := by
  rw [hkey]
  exact perm_map hxs hx fun _ => y

/-- Putting an entry in its place changes no key. -/
theorem map_key_set (xs : List α) (y : α) :
    (xs.map fun z => if k z = k y then y else z).map k = xs.map k := by
  rw [List.map_map]
  refine List.map_congr_left fun z _ => ?_
  show k (if k z = k y then y else z) = k z
  split
  · rename_i h
    exact h.symm
  · rfl

theorem mem_set {z : α} (h : z ∈ xs.map fun z => if k z = k y then y else z) :
    z = y ∨ z ∈ xs := by
  obtain ⟨v, hv, rfl⟩ := List.mem_map.mp h
  split
  · exact .inl rfl
  · exact .inr hv

/-- The entries of other keys stay where they are. -/
theorem mem_set_of_ne {z : α} (h : z ∈ xs) (hkey : k z ≠ k y) :
    z ∈ xs.map fun z => if k z = k y then y else z :=
  List.mem_map.mpr ⟨z, h, if_neg hkey⟩

theorem mem_filter_of_ne {z : α} (h : z ∈ xs) (hkey : k z ≠ n) :
    z ∈ xs.filter (k · != n) :=
  List.mem_filter.mpr ⟨h, by simpa using hkey⟩

/-- The entry that was put in the place of the one with its key is found by it. -/
theorem find?_set (h : xs.find? (k · == n) = some x) (hy : k y = n) :
    (xs.map fun z => if k z = k y then y else z).find? (k · == n) = some y := by
  induction xs with
  | nil => cases h
  | cons z zs ih =>
    rw [List.map_cons]
    by_cases hz : k z = n
    · rw [if_pos (hz.trans hy.symm), List.find?_cons_of_pos (by simpa using hy)]
    · rw [if_neg (by rwa [hy]), List.find?_cons_of_neg (by simpa using hz)]
      rw [List.find?_cons_of_neg (by simpa using hz)] at h
      exact ih h

theorem find?_map (hf : ∀ x, k (f x) = k x) :
    (xs.map f).find? (k · == n) = (xs.find? (k · == n)).map f := by
  rw [List.find?_map]
  congr 1
  exact congrArg (xs.find? ·) (funext fun x => congrArg (· == n) (hf x))

theorem find?_set_of_ne (hy : k y ≠ n) :
    (xs.map fun z => if k z = k y then y else z).find? (k · == n) = xs.find? (k · == n) := by
  induction xs with
  | nil => rfl
  | cons x xs ih =>
    rw [List.map_cons, List.find?_cons, List.find?_cons, ih]
    by_cases hx : k x = k y
    · rw [if_pos hx, hx, beq_false_of_ne hy]
    · simp [hx]

theorem find?_filter_of_ne (hne : m ≠ n) :
    (xs.filter (k · != m)).find? (k · == n) = xs.find? (k · == n) := by
  rw [List.find?_filter]
  refine congrArg (xs.find? ·) (funext fun x => ?_)
  by_cases hx : k x = n
  · simp [hx, hne.symm]
  · simp [hx]

/-! The key may stand beside what is found by it. -/

section
variable {β : Type} {b : β} {ps : List (Nat × β)}

theorem mem_of_lookup (h : ps.lookup n = some b) : (n, b) ∈ ps := by
  obtain ⟨before, behind, rfl, -⟩ := List.lookup_eq_some_iff.mp h
  exact List.mem_append_right _ List.mem_cons_self

theorem lookup_of_mem (hps : (ps.map (·.1)).Nodup) (h : (n, b) ∈ ps) : ps.lookup n = some b := by
  cases hlookup : ps.lookup n with
  | none => exact absurd (List.lookup_eq_none_iff.mp hlookup _ h) (by simp)
  | some b' => rw [(Prod.mk.inj (eq_of_mem hps h (mem_of_lookup hlookup) rfl)).2]

theorem map_fst_filter (ps : List (Nat × β)) (n : Nat) :
    (ps.filter (·.1 != n)).map (·.1) = (ps.map (·.1)).filter (· != n) := by
  rw [List.filter_map]
  rfl

theorem lookup_filter_of_ne (hne : n ≠ m) : (ps.filter (·.1 != m)).lookup n = ps.lookup n := by
  induction ps with
  | nil => rfl
  | cons p ps ih =>
    rw [List.filter_cons, List.lookup_cons, ← ih]
    split
    · rw [List.lookup_cons]
    · rename_i hp
      have hp : p.1 = m := by simpa using hp
      rw [hp, beq_false_of_ne hne]

/-- What is found among the entries of other keys is found by another key, and among all. -/
theorem lookup_of_filter (h : (ps.filter (·.1 != m)).lookup n = some b) :
    n ≠ m ∧ ps.lookup n = some b := by
  have hne : n ≠ m := by simpa using List.of_mem_filter (mem_of_lookup h)
  exact ⟨hne, lookup_filter_of_ne hne ▸ h⟩

end

/-! Some entries are picked, and their keys are the numbers `ns` in some order. -/

section
variable {pick : α → Bool} {rest : List α} {ns : List Nat}

theorem ne_of_mem_tail (hxs : ((x :: rest).map k).Nodup) (hn : n ∈ (rest.filter pick).map k) :
    n ≠ k x := by
  rintro rfl
  have hsub : ((rest.filter pick).map k).Sublist (rest.map k) := List.filter_sublist.map k
  exact (List.nodup_cons.mp hxs).1 (hsub.subset hn)

/-- If the head is not picked its key is not among them. -/
theorem filter_of_not_picked (hxs : ((x :: rest).map k).Nodup)
    (hns : ns.Perm (((x :: rest).filter pick).map k)) (hx : pick x = false) :
    ns.filter (· != k x) = ns := by
  refine List.filter_eq_self.mpr fun n hn => ?_
  have hmem := hns.subset hn
  rw [List.filter_cons_of_neg (by rw [hx]; decide)] at hmem
  simpa using ne_of_mem_tail hxs hmem

/-- Whether or not the head is picked, without its key they are those of the others. -/
theorem perm_without_head (hxs : ((x :: rest).map k).Nodup)
    (hns : ns.Perm (((x :: rest).filter pick).map k)) :
    (ns.filter (· != k x)).Perm ((rest.filter pick).map k) := by
  have hrest : ((rest.filter pick).map k).filter (· != k x) = (rest.filter pick).map k :=
    List.filter_eq_self.mpr fun n hn => by simpa using ne_of_mem_tail hxs hn
  cases hx : pick x with
  | true =>
    have hfilter := hns.filter (· != k x)
    rw [List.filter_cons_of_pos hx, List.map_cons, List.filter_cons_of_neg (by simp), hrest]
      at hfilter
    exact hfilter
  | false =>
    rw [filter_of_not_picked hxs hns hx]
    rwa [List.filter_cons_of_neg (by rw [hx]; decide)] at hns

end

/-- A number goes from one list to the next. -/
theorem perm_passed {ns ms ms' : List Nat} (hns : ns.Nodup) (hn : n ∈ ns)
    (hms : ms'.Perm (n :: ms)) : (ns ++ ms).Perm (ns.filter (· != n) ++ ms') := by
  have hhead : ns.Perm (n :: ns.filter (· != n)) :=
    perm_cons (k := fun n => n) ((List.map_id' ns).symm ▸ hns) hn
  exact (hhead.append_right ms).trans (List.perm_middle.symm.trans (hms.symm.append_left _))

/-- An entry that has a value of its own is the only one with it. -/
theorem eq_of_filterMap {β : Type} {f : α → Option β} {b : β} (hxs : (xs.filterMap f).Nodup)
    (hx : x ∈ xs) (hy : y ∈ xs) (hfx : f x = some b) (hfy : f y = some b) : x = y := by
  induction xs with
  | nil => cases hx
  | cons z zs ih =>
    have htail : (zs.filterMap f).Nodup := hxs.sublist ((List.sublist_cons_self z zs).filterMap f)
    -- The value of the head is not one of the others'.
    have hhead : ∀ v ∈ zs, f z = some b → f v = some b → False := by
      intro v hv hz hfv
      rw [List.filterMap_cons, hz] at hxs
      exact (List.nodup_cons.mp hxs).1 (List.mem_filterMap.mpr ⟨v, hv, hfv⟩)
    rcases List.mem_cons.mp hx with rfl | hxs' <;> rcases List.mem_cons.mp hy with rfl | hys'
    · rfl
    · exact (hhead y hys' hfx hfy).elim
    · exact (hhead x hxs' hfy hfx).elim
    · exact ih htail hxs' hys'

end Parley.Keyed
