import Mathlib

/-! `_handover_allocate_cap`: the cap on each text of the handover that fills the characters that are left. -/

namespace SaltMdb

/-- The loop over the sorted lengths: what is left, and for how many texts, at the first that is longer than its share. -/
def allocateShares : List Nat → Nat → Nat → Nat × Nat
  | [], remaining, messageCount => (remaining, messageCount)
  | length :: rest, remaining, messageCount =>
    if length ≤ remaining / messageCount then allocateShares rest (remaining - length) (messageCount - 1)
    else (remaining, messageCount)

/-- `_handover_allocate_cap`. -/
def handoverAllocateCap (lengths : List Nat) (available : Int) : Nat :=
  if lengths.isEmpty then 1
  else
    let (remaining, messageCount) := allocateShares (lengths.insertionSort (· ≤ ·)) (max available 0).toNat lengths.length
    if messageCount = 0 then lengths.foldr max 0 else max 1 (remaining / messageCount)

/-! ### What the texts take under a cap -/

/-- The characters that the texts take, each cut to the cap. -/
def taken (lengths : List Nat) (cap : Nat) : Nat := (lengths.map (min · cap)).sum

variable {lengths : List Nat} {cap remaining : Nat}

theorem taken_mono {c d : Nat} (le : c ≤ d) : taken lengths c ≤ taken lengths d :=
  List.sum_le_sum fun length _ => by omega

theorem taken_perm {other : List Nat} (perm : lengths.Perm other) : taken lengths cap = taken other cap :=
  (perm.map _).sum_eq

theorem taken_long (long : ∀ length ∈ lengths, cap ≤ length) : taken lengths cap = lengths.length * cap := by
  induction lengths with
  | nil => simp [taken]
  | cons length rest ih =>
    have tail := ih fun other member => long other (List.mem_cons_of_mem _ member)
    have head := long length List.mem_cons_self
    unfold taken at tail ⊢
    rw [List.map_cons, List.sum_cons, tail, List.length_cons, Nat.add_one_mul, Nat.min_eq_right head, Nat.add_comm]

theorem taken_short (short : ∀ length ∈ lengths, length ≤ cap) : taken lengths cap = lengths.sum := by
  have same : lengths.map (min · cap) = lengths := by
    conv_rhs => rw [← List.map_id lengths]
    exact List.map_congr_left fun length member => Nat.min_eq_left (short length member)
  rw [taken, same]

theorem sum_ge_of_sorted {length : Nat} (least : ∀ other ∈ lengths, length ≤ other) : lengths.length * length ≤ lengths.sum := by
  have all_ := taken_long least
  have below_ : taken lengths length ≤ lengths.sum := by
    unfold taken
    conv_rhs => rw [← List.map_id lengths]
    exact List.sum_le_sum fun other _ => Nat.min_le_left _ _
  omega

/-! ### The loop -/

/-- The cap fills what is available: the texts fit, and under any larger cap they do not. -/
structure FillsExactly (lengths : List Nat) (available cap : Nat) : Prop where
  fits : taken lengths cap ≤ available
  greatest : ∀ c, taken lengths c ≤ available → c ≤ cap

/-- Where something is left for the texts that are left, the loop goes through exactly when all of them fit; otherwise it
stops at the share that fills it. -/
theorem allocateShares_spec (sorted : lengths.Pairwise (· ≤ ·)) (available : Nat) :
    (lengths.sum ≤ available ∧ (allocateShares lengths available lengths.length).2 = 0) ∨
      (available < lengths.sum ∧ (allocateShares lengths available lengths.length).2 ≠ 0 ∧
        available / lengths.length ≤ (allocateShares lengths available lengths.length).1 / (allocateShares lengths available lengths.length).2 ∧
          FillsExactly lengths available
            ((allocateShares lengths available lengths.length).1 / (allocateShares lengths available lengths.length).2)) := by
  induction lengths generalizing available with
  | nil => exact .inl ⟨Nat.zero_le _, rfl⟩
  | cons length rest ih =>
    have least := (List.pairwise_cons.mp sorted).1
    have count : 0 < rest.length + 1 := Nat.succ_pos _
    rw [allocateShares, List.length_cons, List.sum_cons]
    split
    · rename_i fair
      have whole : length * (rest.length + 1) ≤ available := (Nat.le_div_iff_mul_le count).mp fair
      have room : length + length * rest.length ≤ available := by rw [Nat.mul_add_one] at whole; omega
      rw [Nat.add_sub_cancel]
      rcases ih (List.pairwise_cons.mp sorted).2 (available - length) with ⟨fits, through⟩ | ⟨over_, left, share, fills⟩
      · exact .inl ⟨by omega, through⟩
      · have positive : 0 < rest.length := by
          rcases Nat.eq_zero_or_pos rest.length with none_ | some_
          · rw [List.length_eq_zero_iff.mp none_] at over_
            simp at over_
          · exact some_
        -- the share of the others does not shrink when a text that is shorter leaves
        have grows : available / (rest.length + 1) ≤ (available - length) / rest.length := by
          rw [Nat.le_div_iff_mul_le positive]
          have split_ := Nat.div_mul_le_self available (rest.length + 1)
          rw [Nat.mul_add_one] at split_
          omega
        have below_ : length ≤ (allocateShares rest (available - length) rest.length).1 /
            (allocateShares rest (available - length) rest.length).2 := fair.trans (grows.trans share)
        refine .inr ⟨by omega, left, grows.trans share, ?_, fun c within => ?_⟩
        · have tail := fills.fits
          unfold taken at tail ⊢
          rw [List.map_cons, List.sum_cons, Nat.min_eq_left below_]
          omega
        · rcases Nat.le_total c length with small | large
          · exact small.trans below_
          · refine fills.greatest c ?_
            unfold taken at within ⊢
            rw [List.map_cons, List.sum_cons, Nat.min_eq_left large] at within
            omega
    · rename_i unfair
      have share : available / (rest.length + 1) < length := Nat.lt_of_not_le unfair
      have long : ∀ other ∈ length :: rest, available / (rest.length + 1) + 1 ≤ other := by
        intro other member
        rcases List.mem_cons.mp member with rfl | later
        · exact share
        · exact Nat.le_trans share (least other later)
      have beyond : available < taken (length :: rest) (available / (rest.length + 1) + 1) := by
        rw [taken_long long, List.length_cons, Nat.mul_comm]
        exact Nat.lt_mul_of_div_lt (Nat.lt_succ_self _) count
      have sums : (length :: rest).length * (available / (rest.length + 1) + 1) ≤ (length :: rest).sum := sum_ge_of_sorted long
      rw [taken_long long] at beyond
      rw [List.sum_cons] at sums
      refine .inr ⟨by omega, Nat.succ_ne_zero _, Nat.le_refl _, ?_, fun c within => ?_⟩
      · rw [taken_long fun other member => Nat.le_of_succ_le (long other member), List.length_cons]
        exact Nat.mul_div_le available _
      · refine Nat.le_of_not_lt fun larger => ?_
        have more : taken (length :: rest) (available / (rest.length + 1) + 1) ≤ taken (length :: rest) c := taken_mono larger
        rw [taken_long long] at more
        omega

/-! ### The cap -/

theorem le_foldr_max {length : Nat} (member : length ∈ lengths) : length ≤ lengths.foldr max 0 := by
  induction lengths with
  | nil => exact absurd member List.not_mem_nil
  | cons head rest ih =>
    rw [List.foldr_cons]
    rcases List.mem_cons.mp member with rfl | later
    · exact Nat.le_max_left _ _
    · exact Nat.le_trans (ih later) (Nat.le_max_right _ _)

/-- Where every text can have a character, the cap is the greatest under which all of them fit; it is the greatest length
where nothing has to be cut. -/
theorem handoverAllocateCap_fills {lengths : List Nat} {available : Int} (nonempty : lengths ≠ [])
    (enough : (lengths.length : Int) ≤ available) :
    if (lengths.sum : Int) ≤ available then handoverAllocateCap lengths available = lengths.foldr max 0
    else (taken lengths (handoverAllocateCap lengths available) : Int) ≤ available ∧
      ∀ c, (taken lengths c : Int) ≤ available → c ≤ handoverAllocateCap lengths available := by
  obtain ⟨room, rfl⟩ : ∃ room : Nat, available = room := ⟨available.toNat, by omega⟩
  have perm : (lengths.insertionSort (· ≤ ·)).Perm lengths := List.perm_insertionSort _ _
  have sorted : (lengths.insertionSort (· ≤ ·)).Pairwise (· ≤ ·) := List.pairwise_insertionSort _ _
  have positive : 0 < lengths.length := List.length_pos_iff.mpr nonempty
  have spec := allocateShares_spec sorted room
  rw [perm.length_eq, perm.sum_eq] at spec
  have given : (max (room : Int) 0).toNat = room := by omega
  have cap : handoverAllocateCap lengths room =
      if (allocateShares (lengths.insertionSort (· ≤ ·)) room lengths.length).2 = 0 then lengths.foldr max 0
      else max 1 ((allocateShares (lengths.insertionSort (· ≤ ·)) room lengths.length).1 /
        (allocateShares (lengths.insertionSort (· ≤ ·)) room lengths.length).2) := by
    unfold handoverAllocateCap
    rw [if_neg (by simpa using nonempty), given]
  rw [cap]
  rcases spec with ⟨fits, through⟩ | ⟨over_, left, share, fills⟩
  · rw [if_pos (by exact_mod_cast fits), if_pos through]
  · have one : 1 ≤ room / lengths.length := (Nat.le_div_iff_mul_le positive).mpr (by omega)
    rw [if_neg (by omega), if_neg left, Nat.max_eq_right (one.trans share)]
    refine ⟨?_, fun c within => fills.greatest c ?_⟩
    · exact_mod_cast taken_perm perm ▸ fills.fits
    · rw [taken_perm perm]
      exact_mod_cast within

theorem handoverAllocateCap_three : if (([3, 9, 5] : List Nat).sum : Int) ≤ 12 then
      handoverAllocateCap [3, 9, 5] 12 = ([3, 9, 5] : List Nat).foldr max 0
    else (taken [3, 9, 5] (handoverAllocateCap [3, 9, 5] 12) : Int) ≤ 12 ∧
      ∀ c, (taken [3, 9, 5] c : Int) ≤ 12 → c ≤ handoverAllocateCap [3, 9, 5] 12 :=
  handoverAllocateCap_fills (by decide) (by decide)

end SaltMdb
