import SkipTools.PosixPath
import Mathlib.Data.Set.Card
import Mathlib.Algebra.BigOperators.Group.Finset

/-! `combinations` of apps/bencher/menu.py, the number of ways to spend an amount
on a menu. It is compared with a declarative count: the orders, one multiplicity
per item, whose cost is the amount. -/

namespace SkipTools

/-- `combinations(menu, remaining)` of the bencher's menu.py: the ways to spend
exactly `remaining` on the items of `menu`, each bought any number of times.
`remaining // cur_price` raises `ZeroDivisionError` on a free item, `none` here. -/
def combinations : List (PyStr × Int) → Int → Option Nat
  | [], remaining => some (if remaining = 0 then 1 else 0)
  | (_, curPrice) :: menu, remaining =>
    if curPrice = 0 then none
    else ((List.range (remaining.fdiv curPrice + 1).toNat).mapM fun numCur : ℕ =>
      combinations menu (remaining - numCur * curPrice)).map List.sum

/-- What an order of `ks` of each item costs. -/
def weight (ks : List ℕ) (menu : List (PyStr × Int)) : Int :=
  (List.zipWith (fun k item => (k : Int) * item.2) ks menu).sum

@[simp] theorem weight_nil_right (ks : List ℕ) : weight ks [] = 0 := by
  simp [weight]

@[simp] theorem weight_cons (k : ℕ) (ks : List ℕ) (item : PyStr × Int) (menu : List (PyStr × Int)) :
    weight (k :: ks) (item :: menu) = k * item.2 + weight ks menu := by
  simp [weight]

theorem weight_nonneg (ks : List ℕ) (menu : List (PyStr × Int)) (hp : ∀ x ∈ menu, 0 < x.2) :
    0 ≤ weight ks menu := by
  induction menu generalizing ks with
  | nil => simp
  | cons item menu ih =>
    cases ks with
    | nil => simp [weight]
    | cons k ks =>
      rw [weight_cons]
      have h1 := hp item (List.mem_cons_self _ _)
      have h2 := ih ks (fun x hx => hp x (List.mem_cons_of_mem _ hx))
      exact add_nonneg (mul_nonneg (Int.natCast_nonneg k) h1.le) h2

/-- The orders `combinations` counts, enumerated the way it recurses. -/
def orders : List (PyStr × Int) → Int → Finset (List ℕ)
  | [], remaining => if remaining = 0 then {[]} else ∅
  | (_, curPrice) :: menu, remaining =>
    (Finset.range (remaining.fdiv curPrice + 1).toNat).biUnion fun k =>
      (orders menu (remaining - k * curPrice)).image (List.cons k)

/-- With positive prices the enumeration holds exactly the orders of the right
length and cost. -/
theorem mem_orders (menu : List (PyStr × Int)) (hp : ∀ x ∈ menu, 0 < x.2) (remaining : Int)
    (ks : List ℕ) :
    ks ∈ orders menu remaining ↔ ks.length = menu.length ∧ weight ks menu = remaining := by
  induction menu generalizing remaining ks with
  | nil =>
    unfold orders
    split_ifs with h <;> cases ks <;> simp [h, eq_comm]
  | cons item menu ih =>
    obtain ⟨name, p⟩ := item
    have hp0 : 0 < p := hp _ (List.mem_cons_self _ _)
    have ih' := ih (fun x hx => hp x (List.mem_cons_of_mem _ hx))
    simp only [orders, Finset.mem_biUnion, Finset.mem_range, Finset.mem_image, ih']
    cases ks with
    | nil => simp
    | cons k ks =>
      simp only [List.length_cons, weight_cons, List.cons.injEq, add_left_inj]
      constructor
      · rintro ⟨k', -, ks', ⟨hl, hw⟩, rfl, rfl⟩
        exact ⟨hl, by omega⟩
      · rintro ⟨hl, hw⟩
        have hnn := weight_nonneg ks menu (fun x hx => hp x (List.mem_cons_of_mem _ hx))
        have hk : (k : Int) ≤ remaining.fdiv p := by
          rw [Int.fdiv_eq_ediv _ hp0.le, Int.le_ediv_iff_mul_le hp0]
          omega
        exact ⟨k, by omega, ks, ⟨hl, by omega⟩, rfl, rfl⟩

theorem card_orders_cons (name : PyStr) (p : Int) (menu : List (PyStr × Int)) (remaining : Int) :
    (orders ((name, p) :: menu) remaining).card =
      ∑ k ∈ Finset.range (remaining.fdiv p + 1).toNat, (orders menu (remaining - k * p)).card := by
  rw [orders, Finset.card_biUnion]
  · exact Finset.sum_congr rfl fun k _ => Finset.card_image_of_injective _ List.cons_injective
  · intro k _ k' _ hne
    rw [Finset.disjoint_left]
    rintro _ h1 h2
    obtain ⟨ks, -, rfl⟩ := Finset.mem_image.mp h1
    obtain ⟨ks', -, h⟩ := Finset.mem_image.mp h2
    exact hne (List.cons.inj h).1.symm

theorem sum_map_range (f : ℕ → ℕ) (n : ℕ) :
    ((List.range n).map f).sum = ∑ k ∈ Finset.range n, f k := by
  induction n with
  | zero => rfl
  | succ n ih =>
    rw [List.range_succ, List.map_append, List.sum_append, ih, Finset.sum_range_succ]
    simp

theorem mapM_eq_some_map (f : ℕ → Option ℕ) (g : ℕ → ℕ) (l : List ℕ)
    (h : ∀ x ∈ l, f x = some (g x)) : l.mapM f = some (l.map g) := by
  induction l with
  | nil => rfl
  | cons x l ih =>
    simp only [List.mapM_cons, h x (List.mem_cons_self _ _),
      ih fun y hy => h y (List.mem_cons_of_mem _ hy)]
    rfl

theorem combinations_eq_card_orders (menu : List (PyStr × Int)) (hp : ∀ x ∈ menu, 0 < x.2)
    (remaining : Int) : combinations menu remaining = some (orders menu remaining).card := by
  induction menu generalizing remaining with
  | nil =>
    simp only [combinations, orders]
    split_ifs <;> rfl
  | cons item menu ih =>
    obtain ⟨name, p⟩ := item
    have hp0 : p ≠ 0 := (hp _ (List.mem_cons_self _ _)).ne'
    have ih' := ih (fun x hx => hp x (List.mem_cons_of_mem _ hx))
    rw [combinations, if_neg hp0, mapM_eq_some_map _ _ _ fun k _ => ih' _, Option.map_some',
      card_orders_cons, sum_map_range]

example : combinations [("a".toList, 2), ("b".toList, 3)] 6 = some 2 := by decide

/-- With positive prices, `combinations` counts the orders of every item that cost
exactly `remaining`; in particular there is none for a negative amount. -/
theorem combinations_count (menu : List (PyStr × Int)) (hp : ∀ x ∈ menu, 0 < x.2)
    (remaining : Int) :
    combinations menu remaining =
        some (Set.ncard {ks : List ℕ | ks.length = menu.length ∧ weight ks menu = remaining}) ∧
      (remaining < 0 → combinations menu remaining = some 0) := by
  have hset : {ks : List ℕ | ks.length = menu.length ∧ weight ks menu = remaining} =
      ↑(orders menu remaining) := Set.ext fun ks => (mem_orders menu hp remaining ks).symm
  refine ⟨by rw [hset, Set.ncard_coe_Finset]; exact combinations_eq_card_orders menu hp remaining,
    fun hneg => ?_⟩
  rw [combinations_eq_card_orders menu hp, Finset.card_eq_zero.mpr]
  refine Finset.eq_empty_of_forall_not_mem fun ks hks => ?_
  have hw := ((mem_orders menu hp remaining ks).mp hks).2
  have := weight_nonneg ks menu hp
  omega

theorem combinations_two_items :
    (∀ x ∈ [("a".toList, (2 : Int)), ("b".toList, 3)], 0 < x.2) ∧
    (combinations [("a".toList, 2), ("b".toList, 3)] 6 =
        some (Set.ncard {ks : List ℕ | ks.length = 2 ∧
          weight ks [("a".toList, 2), ("b".toList, 3)] = 6}) ∧
      ((6 : Int) < 0 → combinations [("a".toList, 2), ("b".toList, 3)] 6 = some 0)) :=
  ⟨by decide, combinations_count _ (by decide) 6⟩

end SkipTools
