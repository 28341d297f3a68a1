import Mathlib.Data.List.Induction
import Mathlib.Data.List.Nodup
import Mathlib.Data.List.Sort

/-! Dictionaries as lists with one entry for each key, in the order in which the keys came. -/

namespace Dictionary

variable {α κ : Type} [DecidableEq κ] (key : α → κ)

/-- The entry of `k` is changed, and made from `start` where there is none. -/
def adjust (entries : List α) (k : κ) (start : α) (change : α → α) : List α :=
  if entries.any (key · == k) then entries.map fun old => if key old = k then change old else old else entries ++ [change start]

/-- `entries[key a] = a`. -/
def assign (entries : List α) (a : α) : List α := adjust key entries (key a) a fun _ => a

variable {key} {entries : List α} {k : κ} {start : α} {change : α → α}

theorem any_key : entries.any (key · == k) = true ↔ ∃ a ∈ entries, key a = k := by
  simp only [List.any_eq_true, beq_iff_eq]

theorem mem_adjust {b : α} : b ∈ adjust key entries k start change ↔
    b ∈ entries ∧ key b ≠ k ∨ (∃ a ∈ entries, key a = k ∧ b = change a) ∨ (∀ a ∈ entries, key a ≠ k) ∧ b = change start := by
  unfold adjust
  split
  · rename_i known
    obtain ⟨a, member, named⟩ := any_key.mp known
    have held : ¬ ∀ a ∈ entries, key a ≠ k := fun none_ => none_ a member named
    simp only [held, false_and, or_false, List.mem_map]
    constructor
    · rintro ⟨old, kept, rfl⟩
      by_cases here : key old = k
      · exact .inr ⟨old, kept, here, if_pos here⟩
      · rw [if_neg here]
        exact .inl ⟨kept, here⟩
    · rintro (⟨kept, other⟩ | ⟨old, kept, here, rfl⟩)
      · exact ⟨b, kept, if_neg other⟩
      · exact ⟨old, kept, if_pos here⟩
  · rename_i unknown
    have fresh : ∀ a ∈ entries, key a ≠ k := fun a member named => unknown (any_key.mpr ⟨a, member, named⟩)
    have unheld : ¬ ∃ a ∈ entries, key a = k ∧ b = change a := fun ⟨a, member, named, _⟩ => fresh a member named
    rw [List.mem_append, List.mem_singleton]
    constructor
    · rintro (old | rfl)
      · exact .inl ⟨old, fresh b old⟩
      · exact .inr (.inr ⟨fresh, rfl⟩)
    · rintro (⟨old, _⟩ | held | ⟨_, rfl⟩)
      · exact .inl old
      · exact absurd held unheld
      · exact .inr rfl

theorem adjust_keys (started : key (change start) = k) (changed : ∀ a, key a = k → key (change a) = k) :
    (adjust key entries k start change).map key = if k ∈ entries.map key then entries.map key else entries.map key ++ [k] := by
  have named : entries.any (key · == k) = true ↔ k ∈ entries.map key := by
    rw [any_key, List.mem_map]
  unfold adjust
  by_cases known : k ∈ entries.map key
  · rw [if_pos (named.mpr known), if_pos known, List.map_map]
    refine List.map_congr_left fun a _ => ?_
    by_cases here : key a = k
    · simp [here, changed a here]
    · simp [here]
  · rw [if_neg (mt named.mp known), if_neg known, List.map_append, List.map_singleton, started]

theorem adjust_apart (started : key (change start) = k) (changed : ∀ a, key a = k → key (change a) = k)
    (apart : (entries.map key).Nodup) : ((adjust key entries k start change).map key).Nodup := by
  rw [adjust_keys started changed]
  split
  · exact apart
  · rename_i fresh
    exact apart.append (List.nodup_singleton k) (by simpa using fresh)

theorem assign_apart {a : α} (apart : (entries.map key).Nodup) : ((assign key entries a).map key).Nodup :=
  adjust_apart rfl (fun _ _ => rfl) apart

theorem eq_of_key {a b : α} (apart : (entries.map key).Nodup) (first : a ∈ entries) (second : b ∈ entries) (same : key a = key b) : a = b :=
  List.inj_on_of_nodup_map apart first second same

theorem foldl_assign_apart {arrivals : List α} : ((arrivals.foldl (assign key) []).map key).Nodup := by
  induction arrivals using List.reverseRecOn with
  | nil => exact List.nodup_nil
  | append_singleton arrivals last ih =>
    rw [List.foldl_concat]
    exact assign_apart ih

/-- A count that reads no more than the keys is not changed where the entry was there, or is not counted. -/
theorem countP_assign {a : α} {p : α → Bool} (same : ∀ b ∈ entries, key b = key a → p b = p a)
    (held : p a = false ∨ ∃ b ∈ entries, key b = key a) : (assign key entries a).countP p = entries.countP p := by
  unfold assign adjust
  by_cases known : entries.any (key · == key a) = true
  · rw [if_pos known, List.countP_map]
    refine List.countP_congr fun b member => ?_
    simp only [Function.comp_apply]
    split
    · rename_i here
      rw [same b member here]
    · rfl
  · rw [if_neg known, List.countP_append]
    have uncounted : p a = false := held.resolve_right fun there => known (any_key.mpr there)
    simp [uncounted]

/-- The entry of a key. -/
def entry (key : α → κ) (entries : List α) (k : κ) : Option α := entries.find? (key · == k)

theorem entry_adjust (start : α) (change : α → α) (started : key (change start) = k) (changed : ∀ a, key a = k → key (change a) = k) (j : κ) :
    entry key (adjust key entries k start change) j =
      if j = k then some (((entry key entries k).map change).getD (change start)) else entry key entries j := by
  have kept : ∀ a, key (if key a = k then change a else a) = key a := by
    intro a
    split
    · rename_i here
      rw [changed a here, here]
    · rfl
  have known_iff : entries.any (key · == k) = true ↔ (entry key entries k).isSome = true := by
    rw [entry, List.find?_isSome, List.any_eq_true]
  unfold adjust
  by_cases known : entries.any (key · == k) = true
  · obtain ⟨a, found⟩ := Option.isSome_iff_exists.mp (known_iff.mp known)
    have through : ∀ j, entry key (entries.map fun old => if key old = k then change old else old) j =
        (entry key entries j).map fun old => if key old = k then change old else old := by
      intro j
      rw [entry, List.find?_map]
      refine congrArg _ (congrArg (fun p => entries.find? p) (funext fun a => ?_))
      simp only [Function.comp_apply, kept]
    rw [if_pos known, through]
    by_cases same : j = k
    · subst same
      have here : key a = j := by simpa using List.find?_some found
      simp [found, here]
    · rw [if_neg same]
      cases other : entry key entries j with
      | none => rfl
      | some b =>
        have there : key b = j := by simpa using List.find?_some other
        simp [there, same]
  · have none_ : entry key entries k = none := by
      rw [← Option.not_isSome_iff_eq_none, ← known_iff]
      exact known
    rw [if_neg known, none_, entry, List.find?_append]
    by_cases same : j = k
    · subst same
      rw [if_pos rfl, show entries.find? (key · == j) = none from none_]
      simp [started]
    · rw [if_neg same]
      have other : (key (change start) == j) = false := by
        rw [started]
        simpa using Ne.symm same
      simp [List.find?_cons, other, entry]

theorem entry_assign (a : α) (j : κ) : entry key (assign key entries a) j = if j = key a then some a else entry key entries j := by
  rw [assign, entry_adjust a (fun _ => a) rfl fun _ _ => rfl]
  split
  · cases entry key entries (key a) with
    | none => rfl
    | some b => rfl
  · rfl

/-- Where one key is never given two values, the dictionary holds what was assigned. -/
theorem mem_foldl_assign {arrivals : List α} (agree : ∀ a ∈ arrivals, ∀ b ∈ arrivals, key a = key b → a = b) {b : α} :
    b ∈ arrivals.foldl (assign key) [] ↔ b ∈ arrivals := by
  induction arrivals using List.reverseRecOn generalizing b with
  | nil => rfl
  | append_singleton arrivals last ih =>
    have earlier : ∀ c, c ∈ arrivals.foldl (assign key) [] ↔ c ∈ arrivals := fun c =>
      ih fun a first b second => agree a (List.mem_append_left _ first) b (List.mem_append_left _ second)
    have final : last ∈ arrivals ++ [last] := List.mem_append_right _ List.mem_cons_self
    rw [List.foldl_concat, assign, mem_adjust]
    simp only [earlier, List.mem_append, List.mem_singleton]
    constructor
    · rintro (⟨old, _⟩ | ⟨_, _, _, rfl⟩ | ⟨_, rfl⟩)
      · exact .inl old
      · exact .inr rfl
      · exact .inr rfl
    · rintro (old | rfl)
      · by_cases same : key b = key last
        · exact .inr (.inl ⟨b, old, same, agree b (List.mem_append_left _ old) last final same⟩)
        · exact .inl ⟨old, same⟩
      · by_cases known : ∃ a ∈ arrivals, key a = key b
        · obtain ⟨a, old, same⟩ := known
          exact .inr (.inl ⟨a, old, same, rfl⟩)
        · exact .inr (.inr ⟨fun a old same => known ⟨a, old, same⟩, rfl⟩)

/-! ### In the order of a rank -/

/-- Sorting forgets the order of arrival where the rank tells the entries apart. -/
theorem insertionSort_perm {ρ : Type} [LinearOrder ρ] {rank : α → ρ} {entries' : List α} (perm : entries'.Perm entries)
    (apart : ∀ a ∈ entries, ∀ b ∈ entries, rank a = rank b → a = b) :
    entries'.insertionSort (fun a b => rank a ≤ rank b) = entries.insertionSort fun a b => rank a ≤ rank b := by
  have total : Std.Total fun a b : α => rank a ≤ rank b := ⟨fun a b => le_total (rank a) (rank b)⟩
  have transitive : IsTrans α fun a b => rank a ≤ rank b := ⟨fun _ _ _ => le_trans⟩
  refine List.Perm.eq_of_pairwise (fun a b first second below above => ?_) (List.pairwise_insertionSort _ entries')
    (List.pairwise_insertionSort _ entries)
    ((List.perm_insertionSort _ entries').trans (perm.trans (List.perm_insertionSort _ entries).symm))
  have first := (List.mem_insertionSort _).mp first
  have second := (List.mem_insertionSort _).mp second
  exact apart a (perm.mem_iff.mp first) b second (le_antisymm below above)

end Dictionary
