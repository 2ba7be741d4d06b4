/-!
Association lists in order of first arrival: a key that comes again keeps its place and takes the
new value.
-/

namespace BulkPaths.Assoc

variable {α β : Type} [DecidableEq α]

def get? (key : α) : List (α × β) → Option β
  | [] => none
  | (k, v) :: rest => if k = key then some v else get? key rest

def put (key : α) (value : β) : List (α × β) → List (α × β)
  | [] => [(key, value)]
  | (k, v) :: rest => if k = key then (k, value) :: rest else (k, v) :: put key value rest

/-- Puts every pair of `extra`, in order. -/
def merge (base extra : List (α × β)) : List (α × β) :=
  extra.foldl (fun pairs pair => put pair.1 pair.2 pairs) base

def ofList (pairs : List (α × β)) : List (α × β) := merge [] pairs

def keys (pairs : List (α × β)) : List α := pairs.map Prod.fst

def contains (key : α) (pairs : List (α × β)) : Bool := (get? key pairs).isSome

/-- Changes the values and keeps the keys. -/
def mapValues {γ : Type} (f : α → β → γ) (pairs : List (α × β)) : List (α × γ) :=
  pairs.map fun pair => (pair.1, f pair.1 pair.2)

@[simp] theorem get?_nil (key : α) : get? key ([] : List (α × β)) = none := rfl

@[simp] theorem get?_put_self (key : α) (value : β) (pairs : List (α × β)) :
    get? key (put key value pairs) = some value := by
  induction pairs with
  | nil => simp [put, get?]
  | cons pair rest ih =>
    obtain ⟨k, v⟩ := pair
    by_cases h : k = key <;> simp [put, get?, h, ih]

theorem get?_put_of_ne {key other : α} (h : other ≠ key) (value : β) (pairs : List (α × β)) :
    get? other (put key value pairs) = get? other pairs := by
  induction pairs with
  | nil => simp [put, get?, h.symm]
  | cons pair rest ih =>
    obtain ⟨k, v⟩ := pair
    by_cases hk : k = key
    · subst hk
      simp [put, get?, h.symm]
    · by_cases ho : k = other
      · subst ho
        simp [put, get?, hk]
      · simp [put, get?, hk, ho, ih]

/-- Putting changes what is found under one key only. -/
theorem get?_put (key other : α) (value : β) (pairs : List (α × β)) :
    get? other (put key value pairs) = if other = key then some value else get? other pairs := by
  by_cases h : other = key
  · subst h
    simp
  · simp [h, get?_put_of_ne h]

theorem keys_put (key : α) (value : β) (pairs : List (α × β)) :
    keys (put key value pairs) =
      if key ∈ keys pairs then keys pairs else keys pairs ++ [key] := by
  induction pairs with
  | nil => simp [put, keys]
  | cons pair rest ih =>
    obtain ⟨k, v⟩ := pair
    by_cases h : k = key
    · simp [put, keys, h]
    · have ih' : List.map Prod.fst (put key value rest) =
          if key ∈ List.map Prod.fst rest then List.map Prod.fst rest
          else List.map Prod.fst rest ++ [key] := ih
      have h' : ¬key = k := fun e => h e.symm
      simp only [put, h, if_false, keys, List.map_cons, ih', List.mem_cons, h', false_or]
      split <;> simp

theorem mem_keys_put (key other : α) (value : β) (pairs : List (α × β)) :
    other ∈ keys (put key value pairs) ↔ other = key ∨ other ∈ keys pairs := by
  rw [keys_put]
  split
  case isTrue h =>
    refine ⟨.inr, ?_⟩
    rintro (rfl | hold)
    · exact h
    · exact hold
  case isFalse => simp [or_comm]

theorem put_of_not_mem {key : α} (value : β) {pairs : List (α × β)} (h : key ∉ keys pairs) :
    put key value pairs = pairs ++ [(key, value)] := by
  induction pairs with
  | nil => rfl
  | cons pair rest ih =>
    obtain ⟨k, v⟩ := pair
    rw [keys, List.map_cons, List.mem_cons, not_or] at h
    rw [put, if_neg (Ne.symm h.1), ih h.2, List.cons_append]

theorem nodup_keys_put (key : α) (value : β) {pairs : List (α × β)} (h : (keys pairs).Nodup) :
    (keys (put key value pairs)).Nodup := by
  rw [keys_put]
  split
  case isTrue => exact h
  case isFalse hnew =>
    rw [List.nodup_append]
    refine ⟨h, by simp, ?_⟩
    rintro a ha b hb rfl
    rw [List.mem_singleton.mp hb] at ha
    exact hnew ha

theorem mem_of_get? {key : α} {value : β} {pairs : List (α × β)}
    (h : get? key pairs = some value) : (key, value) ∈ pairs := by
  induction pairs with
  | nil => cases h
  | cons pair rest ih =>
    obtain ⟨k, v⟩ := pair
    by_cases hk : k = key
    · subst hk
      simp only [get?, if_true, Option.some.injEq] at h
      subst h
      exact List.mem_cons_self
    · simp only [get?, hk, if_false] at h
      exact List.mem_cons_of_mem _ (ih h)

theorem mem_keys_of_get? {key : α} {value : β} {pairs : List (α × β)}
    (h : get? key pairs = some value) : key ∈ keys pairs :=
  List.mem_map.mpr ⟨_, mem_of_get? h, rfl⟩

theorem mem_of_mem_put {key : α} {value : β} {pairs : List (α × β)} {pair : α × β}
    (h : pair ∈ put key value pairs) : pair = (key, value) ∨ pair ∈ pairs := by
  induction pairs with
  | nil => exact .inl (List.mem_singleton.mp h)
  | cons first rest ih =>
    obtain ⟨k, v⟩ := first
    by_cases hk : k = key
    · subst hk
      simp only [put, if_true] at h
      rcases List.mem_cons.mp h with rfl | hold
      · exact .inl rfl
      · exact .inr (List.mem_cons_of_mem _ hold)
    · simp only [put, hk, if_false] at h
      rcases List.mem_cons.mp h with rfl | hold
      · exact .inr List.mem_cons_self
      · exact (ih hold).imp_right (List.mem_cons_of_mem _)

theorem get?_eq_none {key : α} {pairs : List (α × β)} (h : key ∉ keys pairs) :
    get? key pairs = none := by
  cases hget : get? key pairs with
  | none => rfl
  | some value => exact absurd (mem_keys_of_get? hget) h

theorem not_mem_keys_of_get? {key : α} {pairs : List (α × β)} (h : get? key pairs = none) :
    key ∉ keys pairs := by
  induction pairs with
  | nil => exact List.not_mem_nil
  | cons pair rest ih =>
    obtain ⟨k, v⟩ := pair
    by_cases hk : k = key
    · simp [get?, hk] at h
    · simp only [get?, hk, if_false] at h
      rw [keys, List.map_cons, List.mem_cons, not_or]
      exact ⟨Ne.symm hk, ih h⟩

theorem get?_of_mem {key : α} {value : β} {pairs : List (α × β)} (hdistinct : (keys pairs).Nodup)
    (h : (key, value) ∈ pairs) : get? key pairs = some value := by
  induction pairs with
  | nil => cases h
  | cons pair rest ih =>
    obtain ⟨k, v⟩ := pair
    rw [keys, List.map_cons, List.nodup_cons] at hdistinct
    rcases List.mem_cons.mp h with heq | hrest
    · cases heq
      simp [get?]
    · have hne : k ≠ key := by
        rintro rfl
        exact hdistinct.1 (List.mem_map.mpr ⟨_, hrest, rfl⟩)
      simp only [get?, hne, if_false]
      exact ih hdistinct.2 hrest

theorem get?_append (key : α) (pairs more : List (α × β)) :
    get? key (pairs ++ more) = (get? key pairs).or (get? key more) := by
  induction pairs with
  | nil => rfl
  | cons pair rest ih =>
    obtain ⟨k, v⟩ := pair
    by_cases hk : k = key <;> simp [get?, hk, ih]

omit [DecidableEq α] in
theorem keys_append (pairs more : List (α × β)) : keys (pairs ++ more) = keys pairs ++ keys more :=
  List.map_append

theorem mem_of_mem_merge {pairs more : List (α × β)} {pair : α × β} (h : pair ∈ merge pairs more) :
    pair ∈ pairs ∨ pair ∈ more := by
  induction more generalizing pairs with
  | nil => exact .inl h
  | cons next more ih =>
    rcases ih h with hput | hmore
    · rcases mem_of_mem_put hput with rfl | hold
      · exact .inr List.mem_cons_self
      · exact .inl hold
    · exact .inr (List.mem_cons_of_mem _ hmore)

theorem mem_keys_merge {key : α} {pairs more : List (α × β)} :
    key ∈ keys (merge pairs more) ↔ key ∈ keys pairs ∨ key ∈ keys more := by
  induction more generalizing pairs with
  | nil => simp [merge, keys]
  | cons next more ih =>
    rw [merge, List.foldl_cons, ← merge, ih, mem_keys_put, keys, keys, keys, List.map_cons,
      List.mem_cons, or_assoc, or_left_comm]

theorem nodup_keys_merge {pairs : List (α × β)} (h : (keys pairs).Nodup) (more : List (α × β)) :
    (keys (merge pairs more)).Nodup := by
  induction more generalizing pairs with
  | nil => exact h
  | cons next more ih => exact ih (nodup_keys_put next.1 next.2 h)

theorem mem_of_mem_ofList {pairs : List (α × β)} {pair : α × β} (h : pair ∈ ofList pairs) :
    pair ∈ pairs :=
  (mem_of_mem_merge h).resolve_left List.not_mem_nil

theorem mem_keys_ofList {key : α} {pairs : List (α × β)} :
    key ∈ keys (ofList pairs) ↔ key ∈ keys pairs :=
  mem_keys_merge.trans (or_iff_right List.not_mem_nil)

theorem nodup_keys_ofList (pairs : List (α × β)) : (keys (ofList pairs)).Nodup := by
  have hempty : (keys ([] : List (α × β))).Nodup := .nil
  exact nodup_keys_merge hempty pairs

/-- Keys that are all different keep their places and their values. -/
theorem merge_of_nodup {pairs more : List (α × β)} (h : (keys (pairs ++ more)).Nodup) :
    merge pairs more = pairs ++ more := by
  induction more generalizing pairs with
  | nil => exact (List.append_nil pairs).symm
  | cons pair rest ih =>
    have hnew : pair.1 ∉ keys pairs := by
      intro hmem
      rw [keys_append, List.nodup_append] at h
      exact h.2.2 _ hmem _ List.mem_cons_self rfl
    rw [List.append_cons] at h ⊢
    rw [← ih h, merge, List.foldl_cons, put_of_not_mem _ hnew]
    rfl

/-- Selecting by key hides the keys that are not selected and nothing else. -/
theorem get?_filter (p : α → Bool) (key : α) (pairs : List (α × β)) :
    get? key (pairs.filter fun pair => p pair.1) = if p key then get? key pairs else none := by
  induction pairs with
  | nil => simp
  | cons pair rest ih =>
    obtain ⟨k, v⟩ := pair
    by_cases hk : k = key
    · subst hk
      by_cases hp : p k <;> simp [get?, hp, ih]
    · by_cases hp : p k <;> simp [get?, hp, hk, ih]

/-- Of two keys one that is there keeps its place, so the order of putting them does not show. -/
theorem put_comm {key other : α} (hne : key ≠ other) {pairs : List (α × β)}
    (hkey : key ∈ keys pairs) (value more : β) :
    put key value (put other more pairs) = put other more (put key value pairs) := by
  induction pairs with
  | nil => cases hkey
  | cons pair rest ih =>
    obtain ⟨k, v⟩ := pair
    by_cases hk : k = key
    · subst hk
      simp [put, hne]
    · have hrest : key ∈ keys rest := (List.mem_cons.mp hkey).resolve_left fun h => hk h.symm
      by_cases ho : k = other
      · subst ho
        simp [put, hk]
      · simp [put, hk, ho, ih hrest]

omit [DecidableEq α] in
theorem keys_mapValues {γ : Type} (f : α → β → γ) (pairs : List (α × β)) :
    keys (mapValues f pairs) = keys pairs := by
  simp [keys, mapValues, Function.comp_def]

theorem get?_mapValues {γ : Type} (f : α → β → γ) (key : α) (pairs : List (α × β)) :
    get? key (mapValues f pairs) = (get? key pairs).map (f key) := by
  induction pairs with
  | nil => rfl
  | cons pair rest ih =>
    obtain ⟨k, v⟩ := pair
    rw [mapValues] at ih
    by_cases hk : k = key
    · subst hk
      simp [mapValues, get?]
    · simp [mapValues, get?, hk, ih]

theorem filter_key (key : α) {pairs : List (α × β)} (hdistinct : (keys pairs).Nodup) :
    pairs.filter (fun pair => pair.1 = key) =
      ((get? key pairs).map fun value => (key, value)).toList := by
  induction pairs with
  | nil => rfl
  | cons pair rest ih =>
    obtain ⟨k, v⟩ := pair
    rw [keys, List.map_cons, List.nodup_cons] at hdistinct
    by_cases hk : k = key
    · subst hk
      have hnone := get?_eq_none hdistinct.1
      simp [get?, ih hdistinct.2, hnone]
    · simp [get?, hk, ih hdistinct.2]

end BulkPaths.Assoc
