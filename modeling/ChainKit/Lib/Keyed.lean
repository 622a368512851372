import Mathlib

/-! Maps whose values carry their own keys, what it means that an entry of one of them may be
read in place of the entry of another, and maps that are filled entry by entry. -/
namespace ChainKit.Lib
variable {κ ν : Type} [DecidableEq κ] {key : ν → κ}

/-- A finite map that holds every value under its own key. -/
structure KeyedMap (key : ν → κ) where
  entries : AList (fun _ : κ => ν)
  keyed : ∀ k v, entries.lookup k = some v → key v = k

namespace KeyedMap

def empty : KeyedMap key := ⟨∅,by simp⟩

def get (m : KeyedMap key) (k : κ) : Option ν := m.entries.lookup k

@[simp] theorem get_empty (k : κ) : (empty : KeyedMap key).get k = none := by
  simp [get,empty]

theorem key_of_get {m : KeyedMap key} {k : κ} {v : ν} (h : m.get k = some v) : key v = k :=
  m.keyed k v h

def set (m : KeyedMap key) (v : ν) : KeyedMap key where
  entries := m.entries.insert (key v) v
  keyed := by
    intro k w h
    by_cases hk : k = key v
    · subst hk
      rw [AList.lookup_insert] at h
      cases h
      rfl
    · rw [AList.lookup_insert_ne hk] at h
      exact m.keyed k w h

def delete (m : KeyedMap key) (k : κ) : KeyedMap key where
  entries := m.entries.erase k
  keyed := by
    intro l w h
    by_cases hl : l = k
    · rw [hl,AList.lookup_erase] at h
      cases h
    · rw [AList.lookup_erase_ne hl] at h
      exact m.keyed l w h

@[simp] theorem get_set (m : KeyedMap key) (v : ν) :
    (m.set v).get = Function.update m.get (key v) (some v) := by
  funext k
  by_cases hk : k = key v
  · subst hk
    simp [get,set]
  · simp [get,set,hk,AList.lookup_insert_ne]

@[simp] theorem get_delete (m : KeyedMap key) (k : κ) :
    (m.delete k).get = Function.update m.get k none := by
  funext l
  by_cases hl : l = k
  · subst hl
    simp [get,delete]
  · simp [get,delete,hl,AList.lookup_erase_ne]

def setAll (m : KeyedMap key) (vs : List ν) : KeyedMap key := vs.foldl set m

def getAll (m : KeyedMap key) : List ν := m.entries.entries.map Sigma.snd

theorem get_of_mem_getAll {m : KeyedMap key} {v : ν} (h : v ∈ m.getAll) :
    m.get (key v) = some v := by
  obtain ⟨⟨k,w⟩,hmem,rfl⟩ := List.mem_map.mp h
  have hlookup : m.entries.lookup k = some w := AList.mem_lookup_iff.mpr hmem
  rw [m.keyed k w hlookup]
  exact hlookup

theorem get_setAll_of_notMem {m : KeyedMap key} {vs : List ν} {k : κ} (h : k ∉ vs.map key) :
    (m.setAll vs).get k = m.get k := by
  induction vs generalizing m with
  | nil => rfl
  | cons v vs ih =>
    rw [List.map_cons,List.mem_cons,not_or] at h
    calc (m.setAll (v :: vs)).get k = ((m.set v).setAll vs).get k := rfl
      _ = (m.set v).get k := ih h.2
      _ = m.get k := by rw [get_set,Function.update_of_ne h.1]

theorem mem_of_get_setAll {m : KeyedMap key} {vs : List ν} {k : κ} {v : ν}
    (h : (m.setAll vs).get k = some v) : v ∈ vs ∨ m.get k = some v := by
  induction vs generalizing m with
  | nil => exact .inr h
  | cons w vs ih =>
    rcases ih (m := m.set w) h with hmem | hget
    · exact .inl (List.mem_cons_of_mem _ hmem)
    · rw [get_set] at hget
      by_cases hk : k = key w
      · subst hk
        rw [Function.update_self,Option.some.injEq] at hget
        exact .inl (hget ▸ List.mem_cons_self)
      · rw [Function.update_of_ne hk] at hget
        exact .inr hget

theorem get_setAll_of_mem {m m' : KeyedMap key} {vs : List ν} {k : κ} (h : k ∈ vs.map key) :
    (m.setAll vs).get k = (m'.setAll vs).get k := by
  induction vs generalizing m m' with
  | nil => cases h
  | cons v vs ih =>
    by_cases hk : k ∈ vs.map key
    · exact ih hk
    · obtain rfl : k = key v := (List.mem_cons.mp h).resolve_right hk
      calc (m.setAll (v :: vs)).get (key v) = (m.set v).get (key v) := get_setAll_of_notMem hk
        _ = (m'.set v).get (key v) := by simp
        _ = (m'.setAll (v :: vs)).get (key v) := (get_setAll_of_notMem hk).symm

/-- The last entry of a batch for a key, if there is one, replaces the one before. -/
theorem get_setAll (m : KeyedMap key) (vs : List ν) (k : κ) :
    (m.setAll vs).get k = (((empty : KeyedMap key).setAll vs).get k).or (m.get k) := by
  induction vs generalizing m with
  | nil => exact (Option.none_or).symm
  | cons v vs ih =>
    have hset : (m.set v).get k = (((empty : KeyedMap key).set v).get k).or (m.get k) := by
      by_cases hk : k = key v
      · subst hk
        simp
      · simp [hk]
    calc (m.setAll (v :: vs)).get k = ((m.set v).setAll vs).get k := rfl
      _ = (((empty : KeyedMap key).setAll vs).get k).or ((m.set v).get k) := ih _
      _ = ((((empty : KeyedMap key).set v).setAll vs).get k).or (m.get k) := by
        rw [ih (empty.set v),hset,Option.or_assoc]

theorem get_setAll_getAll {m p : KeyedMap key} {vs : List ν} {k : κ}
    (hvs : ∀ v ∈ vs, p.get (key v) = some v) (h : k ∈ vs.map key) :
    (m.setAll vs).get k = p.get k := by
  induction vs generalizing m with
  | nil => cases h
  | cons v vs ih =>
    by_cases hk : k ∈ vs.map key
    · exact ih (fun w hw => hvs w (by simp [hw])) hk
    · obtain rfl : k = key v := (List.mem_cons.mp h).resolve_right hk
      calc (m.setAll (v :: vs)).get (key v) = (m.set v).get (key v) := get_setAll_of_notMem hk
        _ = some v := by simp
        _ = p.get (key v) := (hvs v (by simp)).symm

theorem nodup_getAll (m : KeyedMap key) : (m.getAll.map key).Nodup := by
  have hkeys : m.getAll.map key = m.entries.keys := by
    rw [getAll,List.map_map]
    apply List.map_congr_left
    rintro ⟨k,v⟩ hmem
    exact m.keyed k v (AList.mem_lookup_iff.mpr hmem)
  rw [hkeys]
  exact m.entries.keys_nodup

theorem mem_getAll {m : KeyedMap key} {v : ν} : v ∈ m.getAll ↔ m.get (key v) = some v := by
  constructor
  · exact get_of_mem_getAll
  · intro h
    exact List.mem_map.mpr ⟨⟨key v,v⟩,AList.mem_lookup_iff.mp h,rfl⟩

theorem get_setAll_of_nodup {m : KeyedMap key} {vs : List ν} (hvs : (vs.map key).Nodup) {v : ν}
    (h : v ∈ vs) : (m.setAll vs).get (key v) = some v := by
  induction vs generalizing m with
  | nil => cases h
  | cons w vs ih =>
    obtain ⟨hnot,hrest⟩ := List.nodup_cons.mp hvs
    rcases List.mem_cons.mp h with rfl | hmem
    · calc (m.setAll (v :: vs)).get (key v) = (m.set v).get (key v) := get_setAll_of_notMem hnot
        _ = some v := by simp
    · exact ih hrest hmem

/-- The values of a map, changed in some way and put into another one under the same keys, as far
as the keys are to be kept. -/
theorem get_setAll_image {ν' : Type} {key' : ν' → κ} (m : KeyedMap key) (p : KeyedMap key')
    {f : ν' → ν} (hf : ∀ v, key (f v) = key' v) (keep : κ → Bool) (k : κ) :
    (m.setAll ((p.getAll.filter fun v => keep (key' v)).map f)).get k =
      if keep k then ((p.get k).map f).or (m.get k) else m.get k := by
  have hkeys : ((p.getAll.filter fun v => keep (key' v)).map f).map key =
      (p.getAll.filter fun v => keep (key' v)).map key' := by
    rw [List.map_map]
    exact List.map_congr_left fun v _ => hf v
  have hnodup : (((p.getAll.filter fun v => keep (key' v)).map f).map key).Nodup := by
    rw [hkeys]
    exact p.nodup_getAll.sublist (List.filter_sublist.map key')
  by_cases hmem : keep k = true ∧ (p.get k).isSome = true
  · obtain ⟨hkeep,hsome⟩ := hmem
    obtain ⟨v,hv⟩ := Option.isSome_iff_exists.mp hsome
    have hkey : key' v = k := key_of_get hv
    subst hkey
    have hget := get_setAll_of_nodup (m := m) hnodup (v := f v)
      (List.mem_map.mpr ⟨v,by simp [mem_getAll,hv,hkeep],rfl⟩)
    rw [hf] at hget
    simp [hget,hkeep,hv]
  · have hnot : k ∉ ((p.getAll.filter fun v => keep (key' v)).map f).map key := by
      rw [hkeys,List.mem_map]
      rintro ⟨v,hv,rfl⟩
      rw [List.mem_filter,mem_getAll] at hv
      exact hmem ⟨hv.2,by simp [hv.1]⟩
    rw [get_setAll_of_notMem hnot]
    split_ifs with hkeep
    · have hnone : p.get k = none := by simpa [hkeep] using hmem
      simp [hnone]
    · rfl

def modify (m : KeyedMap key) (k : κ) (f : ν → ν) : KeyedMap key :=
  match m.get k with
  | none => m
  | some v => m.set (f v)

theorem get_modify (m : KeyedMap key) (k : κ) {f : ν → ν} (hf : ∀ v, key (f v) = key v) :
    (m.modify k f).get = Function.update m.get k ((m.get k).map f) := by
  cases hk : m.get k with
  | none =>
    have hsame : m.modify k f = m := by simp [modify,hk]
    rw [hsame,Option.map_none,← hk,Function.update_eq_self]
  | some v => simp [modify,hk,hf,key_of_get hk]

def modifyAll (m : KeyedMap key) (f : ν → ν) : KeyedMap key := m.setAll (m.getAll.map f)

theorem get_modifyAll (m : KeyedMap key) {f : ν → ν} (hf : ∀ v, key (f v) = key v) (k : κ) :
    (m.modifyAll f).get k = (m.get k).map f := by
  have himage := get_setAll_image m m hf (fun _ => true) k
  simp only [List.filter_true,if_true] at himage
  rw [modifyAll,himage]
  cases m.get k <;> rfl

end KeyedMap

/-- A copy may be read in place of the truth: it is missing or right. -/
def Copies (truth copy : Option ν) : Prop := ∀ v, copy = some v → truth = some v

@[simp] theorem copies_none (truth : Option ν) : Copies truth none := by
  intro v h
  cases h

@[simp] theorem copies_self (truth : Option ν) : Copies truth truth := fun _ h => h

section Fill
variable {α β : Type} (place : α → κ) (value : α → β)

theorem fill_of_notMem {l : List α} {k : κ} (h : k ∉ l.map place) (m : κ → β) :
    l.foldl (fun m a => Function.update m (place a) (value a)) m k = m k := by
  induction l generalizing m with
  | nil => rfl
  | cons a l ih =>
    rw [List.map_cons,List.mem_cons,not_or] at h
    rw [List.foldl_cons,ih h.2,Function.update_of_ne h.1]

/-- If no two elements of the list write the same entry, each entry is what its element wrote. -/
theorem fill_of_mem {l : List α} (hl : (l.map place).Nodup) (m : κ → β) {a : α} (ha : a ∈ l) :
    l.foldl (fun m a => Function.update m (place a) (value a)) m (place a) = value a := by
  induction l generalizing m with
  | nil => cases ha
  | cons a' l ih =>
    rw [List.map_cons,List.nodup_cons] at hl
    rw [List.foldl_cons]
    rcases List.mem_cons.mp ha with rfl | ha
    · rw [fill_of_notMem place value hl.1,Function.update_self]
    · exact ih hl.2 _ ha

end Fill

end ChainKit.Lib
